import GatoPskTls.ClientHelloWire
import GatoPskTls.Server.FlightSpec
import GatoPskTls.Server.Session

/-!
# Server: what each operation does

One description for each operation of a session: a first flight, a retry and an
accepted Finished are structures whose fields are everything that had to hold, and
an operation succeeds exactly when such a value exists.
-/
namespace GatoPskTls.Server

open GatoPskTls Stateful BigEndian Splice Rfc8446

variable {cs : TlsCipherSuite}

section Negotiate

variable {hello : ClientHelloRef} {config : TlsServerConfig} {msg : Bytes} {hrr : HrrState}
  {offer : Offer} {sent : Bool}

theorem examine_eq_ok :
    examine msg config hrr = .ok offer ↔ parseClientHello msg = .ok offer.hello ∧
      validateSupportedVersions offer.hello = .ok () ∧ validateCipherSuites offer.hello = .ok () ∧
      checkCh2 offer.hello hrr = .ok () ∧ decideKex offer.hello config hrr.sent = .ok offer.decision ∧
      locateOurIdentity offer.hello config = .ok (offer.selectedIdx, offer.receivedBinder) := by
  simp only [examine, except_bind_eq_ok, mapError_eq_ok_iff]
  constructor
  · rintro ⟨hello, hparse, ⟨⟩, hversions, ⟨⟩, hsuites, ⟨⟩, hch2, decision, hkex, ⟨idx, binder⟩, hid, h⟩
    cases h
    exact ⟨hparse, hversions, hsuites, hch2, hkex, hid⟩
  · rintro ⟨hparse, hversions, hsuites, hch2, hkex, hid⟩
    exact ⟨_, hparse, _, hversions, _, hsuites, _, hch2, _, hkex, _, hid, rfl⟩

theorem parseClientHello_layout (h : parseClientHello msg = .ok hello) :
    ∃ l : ClientHelloRef.Layout msg hello, l.trailing = [] := by
  simp only [parseClientHello] at h
  split at h
  · cases h
  next hello' rest hparse =>
    split at h
    · cases h
    next hempty =>
      cases h
      obtain ⟨l, hrest, -⟩ := ClientHelloRef.parse_eq_ok hparse
      have hpos : rest.pos = rest.buffer.length := by simpa [ParseBuffer.isEmpty] using hempty
      refine ⟨l, ?_⟩
      rw [← hrest, ParseBuffer.rest, hpos, List.drop_length]

theorem parseClientHello_head (h : parseClientHello msg = .ok hello) :
    msg.head? = some HandshakeType.clientHello.toU8 := by
  obtain ⟨layout, -⟩ := parseClientHello_layout h
  rw [layout.message]
  rfl

theorem findBindersStart_le {exts : List ClientHelloExtension} {total start : Nat}
    (h : ClientHelloRef.findBindersStart exts total = .ok start) : start ≤ total := by
  simp only [ClientHelloRef.findBindersStart] at h
  split at h
  · cases h
  split at h
  · cases h
    exact Nat.le_refl _
  split at h
  · cases h
  split at h
  · split at h
    · cases h
    · cases h
      exact Nat.sub_le _ _
  · cases h
    exact Nat.le_refl _

theorem parseClientHello_offset_le (h : parseClientHello msg = .ok hello) :
    hello.bindersStartOffset ≤ msg.length := by
  obtain ⟨l, -⟩ := parseClientHello_layout h
  have := findBindersStart_le l.offset
  have := l.length_eq
  omega

theorem parseClientHello_sessionId_le (h : parseClientHello msg = .ok hello) :
    hello.legacySessionId.length ≤ 32 := by
  obtain ⟨l, -⟩ := parseClientHello_layout h
  exact l.sessionId_le

theorem decideKex_retry {group : NamedGroup} (h : decideKex hello config sent = .ok (.retry group)) :
    sent = false ∧ group = .x25519 ∧ config.dheKeypair.isSome = true := by
  simp only [decideKex] at h
  split at h
  · cases h
  split at h
  next hdhe =>
    split at h
    · cases h
    · cases h
    · split at h
      · cases h
      · split at h
        next hc =>
          cases h
          simp only [Bool.and_eq_true, Bool.not_eq_true'] at hc hdhe
          exact ⟨hc.1, rfl, hdhe.2⟩
        · cases h
  · split at h <;> cases h

/-- The client offers a PSK key exchange with a Diffie-Hellman share. -/
def OffersPskDheKe (hello : ClientHelloRef) : Prop :=
  ∃ modes, pskKeyExchangeModes hello = some modes ∧ offersMode .pskDheKe modes = true

theorem decideKex_pskDheKe {share : Bytes} :
    decideKex hello config sent = .ok (.use (.pskDheKe share)) ↔
      OffersPskDheKe hello ∧ config.dheKeypair.isSome ∧
        findClientX25519Share hello = .ok (some share) := by
  simp only [decideKex, OffersPskDheKe]
  cases hmodes : pskKeyExchangeModes hello with
  | none => simp
  | some modes =>
      simp only [Option.some.injEq, exists_eq_left']
      by_cases hdhe : offersMode .pskDheKe modes = true ∧ config.dheKeypair.isSome = true
      · rw [if_pos (by simpa using hdhe)]
        simp only [hdhe.1, hdhe.2, true_and]
        cases hshare : findClientX25519Share hello with
        | error e => simp
        | ok share? =>
            cases share? with
            | some s => simp
            | none =>
                simp only [Except.ok.injEq, reduceCtorEq, iff_false]
                split
                · simp
                · split <;> simp
      · rw [if_neg (by simpa using hdhe)]
        refine ⟨fun h => ?_, fun h => absurd ⟨h.1, h.2.1⟩ hdhe⟩
        split at h <;> cases h

theorem findClientX25519Share_length {share : Bytes}
    (h : findClientX25519Share hello = .ok (some share)) : share.length = X25519_LEN := by
  have hfirst : ∀ entries, firstX25519Share entries = .ok (some share) →
      share.length = X25519_LEN := by
    intro entries
    induction entries with
    | nil => intro h; cases h
    | cons entry entries ih =>
        intro h
        simp only [firstX25519Share] at h
        split at h
        · split at h
          · cases h
          next hlen =>
            cases h
            exact not_not.mp hlen
        · exact ih h
  simp only [findClientX25519Share] at h
  split at h
  · cases h
  · exact hfirst _ h

/-- Our identity is looked up at the first index it stands at. -/
theorem locateOurIdentity_found {idx : Nat} {binder : Bytes}
    (h : locateOurIdentity hello config = .ok (idx, binder)) :
    ∃ psk, preSharedKey hello = some psk ∧
      psk.identities.findIdx? (· == config.pskIdentity) = some idx ∧
      psk.binders[idx]? = some binder := by
  simp only [locateOurIdentity] at h
  split at h
  · cases h
  next psk hpsk =>
    split at h
    · cases h
    next i hi =>
      split at h
      · cases h
      next b hb =>
        cases h
        exact ⟨psk, hpsk, hi, hb⟩

theorem locateOurIdentity_eq_ok {idx : Nat} {binder : Bytes}
    (h : locateOurIdentity hello config = .ok (idx, binder)) :
    ∃ psk, preSharedKey hello = some psk ∧ psk.identities[idx]? = some config.pskIdentity ∧
      psk.binders[idx]? = some binder := by
  obtain ⟨psk, hpsk, hi, hb⟩ := locateOurIdentity_found h
  obtain ⟨hlt, hid, -⟩ := List.findIdx?_eq_some_iff_getElem.mp hi
  refine ⟨psk, hpsk, ?_, hb⟩
  rw [List.getElem?_eq_getElem hlt, eq_of_beq hid]

theorem length_le_flatMap_sized (binders : List Bytes) :
    binders.length ≤ (binders.flatMap (sized 1)).length := by
  induction binders with
  | nil => exact Nat.le_refl _
  | cons binder binders ih =>
      rw [List.flatMap_cons, List.length_append, sized_length, List.length_cons]
      omega

/-- The selected index fits the field it is sent in. -/
theorem examine_selectedIdx_lt (h : examine msg config hrr = .ok offer) :
    offer.selectedIdx < 256 ^ 2 := by
  obtain ⟨hparse, -, -, -, -, hid⟩ := examine_eq_ok.mp h
  obtain ⟨psk, hpsk, -, hbinder⟩ := locateOurIdentity_eq_ok hid
  obtain ⟨l, -⟩ := parseClientHello_layout hparse
  obtain ⟨ext, hmem, hpick⟩ := List.exists_of_findSome?_eq_some hpsk
  rw [l.interpreted] at hmem
  obtain ⟨e, -, hinterpret⟩ := List.mem_filterMap.mp hmem
  have hext : ext = .preSharedKey psk := by
    split at hpick
    · exact congrArg _ (Option.some.inj hpick)
    · cases hpick
  obtain ⟨d, hparsed⟩ := ClientHelloRef.interpret_preSharedKey (hext ▸ hinterpret)
  obtain ⟨-, -, -, hfit, -⟩ := PreSharedKeyClientHello.parse_eq_ok hparsed
  have hidx := (List.getElem?_eq_some_iff.mp hbinder).1
  have := length_le_flatMap_sized psk.binders
  omega

theorem checkCh2_sent (hsent : hrr.sent = true) :
    checkCh2 hello hrr = .ok () ↔ hello.random = hrr.ch1Random ∧
      hello.legacySessionId = hrr.ch1SessionId.val.take hrr.ch1SessionIdLen.toNat := by
  simp only [checkCh2, hsent, if_true, validateCh2Consistency]
  by_cases hrandom : hello.random = hrr.ch1Random
  · by_cases hsid : hello.legacySessionId = hrr.ch1SessionId.val.take hrr.ch1SessionIdLen.toNat
    · simp [hrandom, hsid]
    · simp [hrandom, hsid]
  · simp [hrandom]

end Negotiate

namespace Session

section Binder

variable {P : Primitives cs} {config : TlsServerConfig} {s s' : Session cs} {msg : Bytes}
  {offer : Offer}

/-- The session with the binder key this ClientHello is checked against. -/
def prepared (P : Primitives cs) (config : TlsServerConfig) (s : Session cs) : Session cs :=
  if s.hrrState.sent then s else { s with schedule := early P config.pskSecret s.schedule }

theorem prepareBinderKey_eq : prepareBinderKey P config s = .ok () (prepared P config s) := by
  simp only [prepareBinderKey, get_bind_apply, prepared]
  split
  · rfl
  · simp only [onSchedule, onPart, orCryptoError, Stateful.mapError,
      KeySchedule.initializeEarlySecret_eq, Option.getD_some]

@[simp] theorem prepared_hrrState : (prepared P config s).hrrState = s.hrrState := by
  simp only [prepared]
  split <;> rfl

@[simp] theorem prepared_transcript :
    (prepared P config s).schedule.serverState.transcriptHash =
      s.schedule.serverState.transcriptHash := by
  simp only [prepared]
  split <;> rfl

theorem prepared_of_sent (h : s.hrrState.sent = true) : prepared P config s = s := if_pos h

theorem prepared_of_not_sent (h : s.hrrState.sent = false) :
    prepared P config s = { s with schedule := early P config.pskSecret s.schedule } :=
  if_neg (by simp [h])

@[simp] theorem prepared_binderBase : (prepared P config s).binderBase = s.binderBase := by
  simp only [binderBase, prepared_hrrState, prepared_transcript]

/-- The binder verifies under a binder key, over what came before and the message up to
its binders. -/
def BinderVerifies (P : Primitives cs) (binderKey : Secret cs) (base msg : Bytes) (offer : Offer) :
    Prop :=
  ∃ prk, binderKey = .initialized prk ∧
    (finishedMac P prk (base ++ msg.take offer.hello.bindersStartOffset)).val = offer.receivedBinder

theorem verifyMac_eq_ok {secret : Secret cs} {messages received : Bytes} {b : Bool} :
    KeySchedule.verifyMac P secret (P.hash messages) received = .ok b ↔
      ∃ prk, secret = .initialized prk ∧ b = decide ((finishedMac P prk messages).val = received) := by
  cases secret with
  | uninitialized =>
      rw [KeySchedule.verifyMac, KeySchedule.finishedMac, Secret.makeExpandedHkdfLabel_uninitialized]
      simp
  | initialized prk =>
      rw [KeySchedule.verifyMac, KeySchedule.finishedMac_eq]
      simp [eq_comm, pure, Except.pure]

/-- The binder is checked without touching the session. -/
theorem checkBinder_keeps (offer : Offer) : Keeps Eq (checkBinder P msg offer) := by
  refine .bind .get fun s => ?_
  split
  · exact .throw _
  · refine .bind (.fromResult _) fun binderOk => ?_
    split
    · exact .pure _
    · exact .throw _

theorem checkBinder_eq_ok (hoffset : offer.hello.bindersStartOffset ≤ msg.length) :
    checkBinder P msg offer s = .ok () s' ↔
      BinderVerifies P s.schedule.clientState.binderKey s.binderBase msg offer ∧ s' = s := by
  simp only [checkBinder, get_bind_apply]
  rw [if_neg (by omega)]
  simp only [bind_eq_ok, fromResult_eq_ok, mapError_eq_ok_iff, KeySchedule.verifyPskBinder,
    verifyMac_eq_ok, BinderVerifies]
  constructor
  · rintro ⟨b, s₁, ⟨⟨prk, hprk, rfl⟩, rfl⟩, h⟩
    split at h
    next hmac =>
      cases h
      exact ⟨⟨prk, hprk, of_decide_eq_true hmac⟩, rfl⟩
    · cases h
  · rintro ⟨⟨prk, hprk, hmac⟩, rfl⟩
    exact ⟨_, _, ⟨⟨prk, hprk, rfl⟩, rfl⟩, by simp [hmac]⟩

end Binder

/-- What is extracted into the handshake secret; `none` when the key exchange is refused. -/
def sharedSecret (cs : TlsCipherSuite) (X : X25519) (config : TlsServerConfig) :
    KexMode → Option Bytes
  | .pskKe => some (KeySchedule.zero cs)
  | .pskDheKe clientPub =>
      match config.dheKeypair with
      | none => none
      | some dhe =>
          if h : clientPub.length = X25519_LEN then
            let shared := X.mult dhe.secret ⟨clientPub, h⟩
            if shared.val.all (· == 0) then none else some shared.val
          else none

/-- The schedule once the handshake keys are installed. -/
def handshakeStage (P : Primitives cs) (ikm : Bytes) (ks : KeySchedule cs) : KeySchedule cs :=
  advance P ikm .clientHandshakeTraffic .serverHandshakeTraffic ks

/-- The schedule once the application keys are installed. -/
def applicationStage (P : Primitives cs) (ks : KeySchedule cs) : KeySchedule cs :=
  advance P (KeySchedule.zero cs) .clientApplicationTraffic .serverApplicationTraffic ks

section FirstFlight

variable {P : Primitives cs} {X : X25519} {config : TlsServerConfig} {s s' : Session cs}
  {msg out bytes : Bytes} {offer : Offer} {mode : KexMode} {ks ks' : KeySchedule cs}

theorem installHandshakeKeys_eq_ok :
    installHandshakeKeys P X config mode ks = .ok () ks' ↔
      ∃ ikm, sharedSecret cs X config mode = some ikm ∧ ks' = handshakeStage P ikm ks := by
  have hstage : ∀ ikm, orCryptoError (KeySchedule.initializeHandshakeSecret P ikm) ks =
      .ok () (handshakeStage P ikm ks) :=
    fun ikm => mapError_of_ok (KeySchedule.initializeHandshakeSecret_eq P ikm ks)
  cases mode with
  | pskKe =>
      simp only [installHandshakeKeys, KeySchedule.initializeHandshakeSecretPskKe, hstage]
      simp [sharedSecret, eq_comm]
  | pskDheKe clientPub =>
      simp only [installHandshakeKeys, sharedSecret]
      cases config.dheKeypair with
      | none => simp
      | some dhe =>
          by_cases h : clientPub.length = X25519_LEN
          · simp only [h, dite_true]
            by_cases hz : (X.mult dhe.secret ⟨clientPub, h⟩).val.all (· == 0) = true
            · simp [hz]
            · simp only [hz]
              simp [hstage, eq_comm]
          · simp [h]

/-- A first flight: everything that had to hold for it to be sent. -/
structure FirstFlight (P : Primitives cs) (X : X25519) (msg : Bytes) (config : TlsServerConfig)
    (s : Session cs) where
  offer : Offer
  mode : KexMode
  exts : List ServerHelloExtension
  ikm : Bytes
  examined : examine msg config s.hrrState = .ok offer
  binder : BinderVerifies P (prepared P config s).schedule.clientState.binderKey s.binderBase msg offer
  decided : offer.decision = .use mode
  extensions : serverHelloExtensions config offer.selectedIdx mode = .ok exts
  shared : sharedSecret cs X config mode = some ikm

namespace FirstFlight

variable (f : FirstFlight P X msg config s)

/-- The ServerHello message. -/
def sh : Bytes := serverHelloMessage (serverHello config f.offer.hello.legacySessionId f.exts).wire

/-- The schedule with the handshake keys, over ClientHello and ServerHello. -/
def keyed : KeySchedule cs :=
  handshakeStage P f.ikm (absorb (absorb (prepared P config s).schedule msg) f.sh)

/-- The server's handshake traffic secret. -/
def serverSecret : GenericArray cs.hashLen :=
  deriveSecret P (P.extract (prepared P config s).schedule.shared.secret.val f.ikm)
    .serverHandshakeTraffic (s.schedule.serverState.transcriptHash ++ msg ++ f.sh)

def afterExtensions : KeySchedule cs := bumpServer (absorb f.keyed encryptedExtensionsMessage)

/-- The server's Finished message. -/
def fin : Bytes :=
  finishedMessage (finishedMac P f.serverSecret f.afterExtensions.serverState.transcriptHash)

/-- The session the flight leaves behind. -/
def session : Session cs := { s with schedule := bumpServer (absorb f.afterExtensions f.fin) }

/-- The flight on the wire: the two encrypted messages are sealed one after the other. -/
def Written (bytes : Bytes) : Prop :=
  ∃ ee fin, sealedWith P f.keyed.serverState.state encryptedExtensionsMessage .handshake = some ee ∧
    sealedWith P f.afterExtensions.serverState.state f.fin .handshake = some fin ∧
    bytes = plaintextRecord f.sh ++ protectedRecord ee ++ protectedRecord fin

theorem sessionId_le : f.offer.hello.legacySessionId.length ≤ 32 :=
  parseClientHello_sessionId_le (examine_eq_ok.mp f.examined).1

theorem keyed_serverState : f.keyed.serverState.state = freshState P f.serverSecret := by
  simp only [keyed, handshakeStage, advance, absorb, withTranscript, prepared_transcript]
  rfl

theorem afterExtensions_trafficSecret :
    f.afterExtensions.serverState.state.trafficSecret = .initialized f.serverSecret := by
  have := f.keyed_serverState
  simp only [afterExtensions, bumpServer, absorb, withTranscript, this, freshState]

theorem keyed_canCount : CanCount f.keyed.serverState.state := by
  rw [f.keyed_serverState]
  exact (by decide : (0 : UInt64).toNat + 1 < 2 ^ 64)

theorem afterExtensions_canCount : CanCount f.afterExtensions.serverState.state := by
  have : f.afterExtensions.serverState.state.counter = 1 := by
    have := f.keyed_serverState
    simp only [afterExtensions, bumpServer, absorb, withTranscript, this, freshState]
    rfl
  rw [CanCount, this]
  decide

variable {w : OutWriter} {d' : Desk cs}

/-- The encrypted part of the flight, once the handshake keys are installed. -/
theorem writeEncrypted_eq_ok (hw : w.pos ≤ w.buf.length) :
    (do writeEncryptedHandshakeRecord P encodeEncryptedExtensions
        writeEncryptedHandshakeRecord P (encodeServerFinished P) : Desk.M cs Unit) ⟨f.keyed, w⟩ =
      .ok () d' ↔
    ∃ ee fin, sealedWith P f.keyed.serverState.state encryptedExtensionsMessage .handshake = some ee ∧
      sealedWith P f.afterExtensions.serverState.state f.fin .handshake = some fin ∧
      (protectedRecord ee ++ protectedRecord fin).length ≤ OutWriter.sink.room w ∧
      d' = ⟨f.session.schedule, w.written (protectedRecord ee ++ protectedRecord fin)⟩ := by
  simp only [bind_eq_ok, writeEncryptedHandshakeRecord_eq_ok (d := ⟨f.keyed, w⟩)
    encodeEncryptedExtensions_bounded hw, encodeEncryptedExtensions_eq_ok]
  constructor
  · rintro ⟨_, d₁, ⟨hfit, _, ee, ⟨hroom, rfl⟩, hee, -, rfl⟩, h⟩
    have hee_len := sealedWith_length hee
    have hfit₁ : (protectedRecord ee).length ≤ OutWriter.sink.room w := by
      rw [protectedRecord_length, hee_len]
      change 5 + (6 + 1 + cs.tagSize) ≤ _
      omega
    obtain ⟨hfit₂, _, fin, hfin, hseal, -, rfl⟩ := (writeEncryptedHandshakeRecord_eq_ok
      (d := ⟨f.afterExtensions, w.written (protectedRecord ee)⟩) (encodeServerFinished_bounded P)
      (OutWriter.sink.valid_put hw hfit₁)).mp h
    obtain ⟨hroom₂, rfl⟩ := (encodeServerFinished_eq_ok f.afterExtensions_trafficSecret).mp hfin
    refine ⟨ee, fin, hee, hseal, ?_, ?_⟩
    · have hfin_len := sealedWith_length hseal
      rw [finishedMessage_length] at hfin_len
      change 6 + cs.tagSize ≤ OutWriter.sink.room (OutWriter.sink.put w (protectedRecord ee)) at hfit₂
      change _ ≤ OutWriter.sink.room (OutWriter.sink.put w (protectedRecord ee)) - _ at hroom₂
      rw [OutWriter.sink.room_put hw hfit₁] at hfit₂ hroom₂
      rw [List.length_append, protectedRecord_length fin, hfin_len]
      omega
    · exact congrArg _ (OutWriter.sink.put_put hw)
  · rintro ⟨ee, fin, hee, hseal, hfit, rfl⟩
    have hee_len := sealedWith_length hee
    have hfin_len := sealedWith_length hseal
    rw [FirstFlight.fin, finishedMessage_length] at hfin_len
    have hlen : (protectedRecord ee).length = 5 + (6 + 1 + cs.tagSize) := by
      rw [protectedRecord_length, hee_len]
      rfl
    rw [List.length_append, protectedRecord_length fin, hfin_len] at hfit
    have hfit₁ : (protectedRecord ee).length ≤ OutWriter.sink.room w := by omega
    refine ⟨(), _, ⟨by omega, _, ee, ⟨by omega, rfl⟩, hee, f.keyed_canCount, rfl⟩, ?_⟩
    have hroom := OutWriter.sink.room_put hw hfit₁
    rw [OutWriter.sink_put] at hroom
    refine (writeEncryptedHandshakeRecord_eq_ok
      (d := ⟨f.afterExtensions, w.written (protectedRecord ee)⟩) (encodeServerFinished_bounded P)
      (OutWriter.sink.valid_put hw hfit₁)).mpr ⟨by rw [hroom]; omega, _, fin, ?_, hseal,
        f.afterExtensions_canCount, congrArg _ (OutWriter.sink.put_put hw).symm⟩
    exact (encodeServerFinished_eq_ok f.afterExtensions_trafficSecret).mpr
      ⟨by rw [hroom]; omega, rfl⟩

theorem writeFlight_eq_ok (hw : w.pos ≤ w.buf.length) :
    writeFlight P X config f.offer f.mode ⟨absorb (prepared P config s).schedule msg, w⟩ =
      .ok () d' ↔
    ∃ bytes, f.Written bytes ∧ bytes.length ≤ OutWriter.sink.room w ∧
      d' = ⟨f.session.schedule, w.written bytes⟩ := by
  set ks := absorb (prepared P config s).schedule msg with hks
  have hhello : ∀ {d₁}, writeServerHelloRecord config f.offer.hello.legacySessionId
      f.offer.selectedIdx f.mode ⟨ks, w⟩ = .ok () d₁ ↔
      (plaintextRecord f.sh).length ≤ OutWriter.sink.room w ∧
        d₁ = ⟨absorb ks f.sh, w.written (plaintextRecord f.sh)⟩ :=
    writeServerHelloRecord_eq_ok (d := ⟨ks, w⟩) hw f.sessionId_le f.extensions
  have hinstall : ∀ w', Desk.onSchedule (installHandshakeKeys P X config f.mode)
      ⟨absorb ks f.sh, w'⟩ = .ok () ⟨f.keyed, w'⟩ :=
    fun w' => Desk.onSchedule_of_ok (installHandshakeKeys_eq_ok.mpr ⟨f.ikm, f.shared, rfl⟩)
  rw [writeFlight, bind_eq_ok]
  constructor
  · rintro ⟨_, d₁, h₁, h⟩
    obtain ⟨hfit, rfl⟩ := hhello.mp h₁
    rw [bind_of_ok (hinstall _)] at h
    obtain ⟨ee, fin, hee, hfin, hfit₂, rfl⟩ :=
      (f.writeEncrypted_eq_ok (OutWriter.sink.valid_put hw hfit)).mp h
    rw [OutWriter.sink.room_put hw hfit] at hfit₂
    refine ⟨_, ⟨ee, fin, hee, hfin, rfl⟩, ?_, ?_⟩
    · rw [List.append_assoc, List.length_append]
      exact (Nat.add_comm _ _).trans_le (Nat.add_le_of_le_sub hfit hfit₂)
    · rw [List.append_assoc]
      exact congrArg _ (OutWriter.sink.put_put hw)
  · rintro ⟨_, ⟨ee, fin, hee, hfin, rfl⟩, hfit, rfl⟩
    rw [List.append_assoc] at hfit ⊢
    have hfit₁ := fits_left hfit
    rw [List.length_append] at hfit
    refine ⟨(), _, hhello.mpr ⟨hfit₁, rfl⟩, ?_⟩
    refine (bind_of_ok (hinstall _)).trans
      ((f.writeEncrypted_eq_ok (OutWriter.sink.valid_put hw hfit₁)).mpr
        ⟨ee, fin, hee, hfin, ?_, congrArg _ (OutWriter.sink.put_put hw).symm⟩)
    rw [OutWriter.sink.room_put hw hfit₁]
    exact Nat.le_sub_of_add_le ((Nat.add_comm _ _).trans_le hfit)

end FirstFlight

theorem writeFlight_inputs {d d' : Desk cs} (h : writeFlight P X config offer mode d = .ok () d') :
    (∃ exts, serverHelloExtensions config offer.selectedIdx mode = .ok exts) ∧
      ∃ ikm, sharedSecret cs X config mode = some ikm := by
  simp only [writeFlight, bind_eq_ok] at h
  obtain ⟨_, d₁, h₁, _, d₂, h₂, -⟩ := h
  obtain ⟨ks, h₂, -⟩ := onPart_eq_ok.mp h₂
  obtain ⟨ikm, hikm, -⟩ := installHandshakeKeys_eq_ok.mp h₂
  exact ⟨writeServerHelloRecord_extensions h₁, ikm, hikm⟩

theorem writing_eq_ok {x : Desk.M cs Unit} :
    writing out x s = .ok bytes s' ↔ ∃ d, x ⟨s.schedule, .new out⟩ = .ok () d ∧
      bytes = d.writer.buf.take d.writer.pos ∧ s' = { s with schedule := d.schedule } := by
  simp only [writing]
  cases x ⟨s.schedule, .new out⟩ with
  | ok a d => simp [eq_comm]
  | error e d => simp

/-- What a fresh writer has written. -/
theorem take_written_new (out u : Bytes) :
    ((OutWriter.new out).written u).buf.take ((OutWriter.new out).written u).pos = u := by
  simp [OutWriter.written, OutWriter.new, splice]

theorem processClientHello_prepared (h : examine msg config s.hrrState = .ok offer)
    (hb : BinderVerifies P (prepared P config s).schedule.clientState.binderKey s.binderBase msg offer) :
    processClientHello P X msg config out s =
      (match offer.decision with
       | .retry group => retry P msg offer group out
       | .use mode => firstFlight P X msg config offer mode out) (prepared P config s) := by
  have hoffset := parseClientHello_offset_le (examine_eq_ok.mp h).1
  have hcheck : checkBinder P msg offer (prepared P config s) = .ok () (prepared P config s) :=
    (checkBinder_eq_ok hoffset).mpr ⟨by rwa [prepared_binderBase], rfl⟩
  rw [processClientHello, get_bind_apply, h, fromResult_ok_bind, bind_of_ok prepareBinderKey_eq]
  exact bind_of_ok hcheck

theorem processClientHello_checked {a : HandshakeOutput}
    (h : processClientHello P X msg config out s = .ok a s') :
    ∃ offer, examine msg config s.hrrState = .ok offer ∧
      BinderVerifies P (prepared P config s).schedule.clientState.binderKey s.binderBase msg offer := by
  simp only [processClientHello, get_bind_apply, bind_eq_ok, fromResult_eq_ok, prepareBinderKey_eq,
    EStateM.Result.ok.injEq] at h
  obtain ⟨offer, _, ⟨hexamine, rfl⟩, _, _, ⟨_, rfl⟩, _, s₂, hcheck, -⟩ := h
  have hoffset := parseClientHello_offset_le (examine_eq_ok.mp hexamine).1
  obtain ⟨hb, -⟩ := (checkBinder_eq_ok hoffset).mp hcheck
  rw [prepared_binderBase] at hb
  exact ⟨offer, hexamine, hb⟩

/-- A ClientHello is answered with a first flight exactly when there is one and it fits. -/
theorem processClientHello_firstFlight :
    processClientHello P X msg config out s = .ok (.firstFlight bytes) s' ↔
      ∃ f : FirstFlight P X msg config s, f.Written bytes ∧ bytes.length ≤ out.length ∧
        s' = f.session := by
  constructor
  · intro h
    obtain ⟨offer, hexamine, hb⟩ := processClientHello_checked h
    rw [processClientHello_prepared hexamine hb] at h
    cases hd : offer.decision with
    | retry group =>
        simp only [hd, retry, bind_eq_ok] at h
        obtain ⟨_, _, -, _, _, -, h⟩ := h
        cases h
    | use mode =>
        simp only [hd, firstFlight, bind_eq_ok, writing_eq_ok] at h
        obtain ⟨_, s₁, hupdate, b, s₂, ⟨d, hwrite, hbytes, rfl⟩, h⟩ := h
        cases hupdate
        cases h
        obtain ⟨⟨exts, hexts⟩, ikm, hikm⟩ := writeFlight_inputs hwrite
        let f : FirstFlight P X msg config s :=
          ⟨offer, mode, exts, ikm, hexamine, hb, hd, hexts, hikm⟩
        obtain ⟨_, hwritten, hfit, rfl⟩ :=
          (f.writeFlight_eq_ok (w := .new out) (Nat.zero_le _)).mp hwrite
        cases hbytes.trans (take_written_new _ _)
        exact ⟨f, hwritten, hfit, by simp [FirstFlight.session]⟩
  · rintro ⟨f, hwritten, hfit, rfl⟩
    rw [processClientHello_prepared f.examined f.binder, f.decided]
    have hwrite := (f.writeFlight_eq_ok (w := .new out) (Nat.zero_le _)).mpr
      ⟨bytes, hwritten, hfit, rfl⟩
    simp only [firstFlight, bind_eq_ok, writing_eq_ok]
    refine ⟨(), _, rfl, bytes, f.session, ⟨_, hwrite, (take_written_new _ _).symm, ?_⟩, rfl⟩
    simp [FirstFlight.session]

end FirstFlight

theorem snapshot_sessionId {hrr : HrrState} {hello : ClientHelloRef}
    (h : hello.legacySessionId.length ≤ 32) :
    (hrr.snapshot hello h).ch1SessionId.val.take (hrr.snapshot hello h).ch1SessionIdLen.toNat =
      hello.legacySessionId := by
  have hlen : (UInt8.ofNat hello.legacySessionId.length).toNat = hello.legacySessionId.length :=
    Nat.mod_eq_of_lt (by omega)
  simp only [HrrState.snapshot, hlen, splice, List.take_zero, List.nil_append, Nat.zero_add,
    List.take_left]

section Retry

variable {P : Primitives cs} {X : X25519} {config : TlsServerConfig} {s s' : Session cs}
  {msg out bytes : Bytes}

/-- A HelloRetryRequest: everything that had to hold for it to be sent. -/
structure Retry (P : Primitives cs) (msg : Bytes) (config : TlsServerConfig) (s : Session cs) where
  offer : Offer
  group : NamedGroup
  examined : examine msg config s.hrrState = .ok offer
  binder : BinderVerifies P (prepared P config s).schedule.clientState.binderKey s.binderBase msg offer
  decided : offer.decision = .retry group

namespace Retry

variable (r : Retry P msg config s)

theorem sessionId_le : r.offer.hello.legacySessionId.length ≤ 32 :=
  parseClientHello_sessionId_le (examine_eq_ok.mp r.examined).1

/-- The HelloRetryRequest message. -/
def hrr : Bytes := retryMessage r.offer.hello.legacySessionId r.group

/-- The session the retry leaves behind. -/
def session : Session cs where
  schedule := withTranscript (prepared P config s).schedule (messageHash P msg ++ r.hrr)
  hrrState := s.hrrState.snapshot r.offer.hello r.sessionId_le

theorem decideKex_eq (r : Retry P msg config s) :
    decideKex r.offer.hello config s.hrrState.sent = .ok (.retry r.group) := by
  rw [← r.decided]
  exact (examine_eq_ok.mp r.examined).2.2.2.2.1

theorem not_sent (r : Retry P msg config s) : s.hrrState.sent = false :=
  (decideKex_retry r.decideKex_eq).1

end Retry

/-- A ClientHello is answered with a HelloRetryRequest exactly when there is one and it fits. -/
theorem processClientHello_retry :
    processClientHello P X msg config out s = .ok (.helloRetryRequest bytes) s' ↔
      ∃ r : Retry P msg config s, bytes = plaintextRecord r.hrr ∧ bytes.length ≤ out.length ∧
        s' = r.session := by
  have hrecord : ∀ (r : Retry P msg config s) {d}, writeHelloRetryRequestRecord P
      r.offer.hello.legacySessionId r.group msg ⟨(prepared P config s).schedule, .new out⟩ =
        .ok () d ↔ (plaintextRecord r.hrr).length ≤ out.length ∧
      d = ⟨withTranscript (prepared P config s).schedule (messageHash P msg ++ r.hrr),
        (OutWriter.new out).written (plaintextRecord r.hrr)⟩ := fun r {d} =>
    writeHelloRetryRequestRecord_eq_ok (d := ⟨(prepared P config s).schedule, .new out⟩)
      (Nat.zero_le _) r.sessionId_le
  constructor
  · intro h
    obtain ⟨offer, hexamine, hb⟩ := processClientHello_checked h
    rw [processClientHello_prepared hexamine hb] at h
    cases hd : offer.decision with
    | retry group =>
        let r : Retry P msg config s := ⟨offer, group, hexamine, hb, hd⟩
        simp only [hd, retry, bind_eq_ok, writing_eq_ok] at h
        obtain ⟨b, s₁, ⟨d, hwrite, hbytes, rfl⟩, _, s₂, hsnap, h⟩ := h
        cases h
        obtain ⟨hfit, rfl⟩ := (hrecord r).mp hwrite
        cases hbytes.trans (take_written_new _ _)
        simp only [snapshotCh1, get_bind_apply] at hsnap
        rw [dif_pos r.sessionId_le] at hsnap
        cases hsnap
        refine ⟨r, rfl, hfit, ?_⟩
        simp only [Retry.session, prepared_hrrState]
        rfl
    | use mode =>
        simp only [hd, firstFlight, bind_eq_ok] at h
        obtain ⟨_, _, -, _, _, -, h⟩ := h
        cases h
  · rintro ⟨r, rfl, hfit, rfl⟩
    rw [processClientHello_prepared r.examined r.binder, r.decided]
    simp only [retry, bind_eq_ok, writing_eq_ok]
    refine ⟨_, _, ⟨_, (hrecord r).mpr ⟨hfit, rfl⟩, (take_written_new _ _).symm, rfl⟩, (), r.session,
      ?_, rfl⟩
    simp only [snapshotCh1, get_bind_apply]
    rw [dif_pos r.sessionId_le]
    simp only [Retry.session, prepared_hrrState, set_apply]

end Retry

section Records

variable {P : Primitives cs} {ks ks' : KeySchedule cs} {s s' : Session cs}
  {record payload plaintext out buffer : Bytes} {marker : ContentType}

/-- The plaintext of a record body under a traffic state, with the record's header as
associated data. -/
def openedWith (P : Primitives cs) (s : KeyScheduleState cs) (record : Bytes) : Option Bytes :=
  P.aeadOpen s.key (KeyScheduleState.nonce s.counter s.iv) (record.take RECORD_HEADER_LEN)
    (record.drop RECORD_HEADER_LEN)

theorem openRecord_eq :
    openRecord P record (record.drop RECORD_HEADER_LEN) ks =
      match openedWith P ks.clientState.state record with
      | none => .error (.err .cryptoError) ks
      | some plaintext =>
          if CanCount ks.clientState.state then .ok plaintext (bumpClient ks)
          else .error .panic ks := by
  set body := record.drop RECORD_HEADER_LEN with hbody
  have hwf : (CryptoBuffer.wrapWithPos body body.length).WF := by
    simp [CryptoBuffer.WF, CryptoBuffer.wrapWithPos]
  have hslice : (CryptoBuffer.wrapWithPos body body.length).asSlice = body := by
    simp [CryptoBuffer.asSlice, CryptoBuffer.wrapWithPos]
  simp only [openRecord, get_bind_apply, KeyScheduleState.getKey, KeyScheduleState.getNonce,
    mapError_ok_eq, fromResult_ok_bind, CryptoBuffer.decryptInPlace_eq hwf, hslice, openedWith,
    ← hbody]
  cases P.aeadOpen ks.clientState.state.key (KeyScheduleState.nonce ks.clientState.state.counter
      ks.clientState.state.iv) (record.take RECORD_HEADER_LEN) body with
  | none => rfl
  | some plaintext =>
      have hinc := incrementClientCounter_eq ks
      by_cases hc : CanCount ks.clientState.state
      · rw [if_pos hc] at hinc
        simp only [bind_of_ok hinc, if_pos hc, pure_apply]
        simp [CryptoBuffer.wrapWithPos, splice]
      · rw [if_neg hc] at hinc
        simp only [bind_of_error hinc, if_neg hc]

theorem openRecord_eq_ok :
    openRecord P record (record.drop RECORD_HEADER_LEN) ks = .ok plaintext ks' ↔
      openedWith P ks.clientState.state record = some plaintext ∧ CanCount ks.clientState.state ∧
        ks' = bumpClient ks := by
  rw [openRecord_eq]
  cases openedWith P ks.clientState.state record with
  | none => simp
  | some pt =>
      by_cases hc : CanCount ks.clientState.state
      · simp [hc, eq_comm]
      · simp [hc]

theorem sealPayload_eq (hfit : RECORD_HEADER_LEN + (payload.length + 1 + cs.tagSize) ≤ out.length) :
    sealPayload P payload marker out ks =
      match sealedWith P ks.serverState.state payload marker with
      | none => .error (.err .cryptoError) ks
      | some ciphertext =>
          if CanCount ks.serverState.state then .ok (protectedRecord ciphertext) (bumpServer ks)
          else .error .panic ks := by
  set header := protectedHeader (payload.length + 1 + cs.tagSize) with hheader
  have hheaderLen : header.length = RECORD_HEADER_LEN := by simp [hheader, protectedHeader]; rfl
  set spare := (out.drop (header ++ payload ++ [marker.toU8]).length).take cs.tagSize with hspare
  have hspareLen : spare.length = cs.tagSize := by
    simp only [hspare, List.length_take, List.length_drop, List.length_append, hheaderLen,
      List.length_singleton]
    omega
  have hfront : splice out 0 (header ++ payload ++ [marker.toU8]) =
      header ++ ((payload ++ [marker.toU8]) ++
        out.drop (header ++ payload ++ [marker.toU8]).length) := by
    simp [splice]
  have hregion : ((splice out 0 (header ++ payload ++ [marker.toU8])).drop RECORD_HEADER_LEN).take
      (payload.length + 1 + cs.tagSize) = (payload ++ [marker.toU8]) ++ spare := by
    rw [hfront, List.drop_left' hheaderLen, show payload.length + 1 + cs.tagSize =
      (payload ++ [marker.toU8]).length + cs.tagSize by simp, List.take_length_add_append]
  have hseal := @sealRegion_eq cs P ks.serverState.state header (payload ++ [marker.toU8]) spare
    hspareLen
  rw [List.length_append, List.length_singleton] at hseal
  simp only [sealPayload, get_bind_apply, ← hheader, hregion, hseal, sealedWith]
  cases hct : P.aeadSeal ks.serverState.state.key (KeyScheduleState.nonce
      ks.serverState.state.counter ks.serverState.state.iv) header (payload ++ [marker.toU8]) with
  | none => rfl
  | some ciphertext =>
      have hlen : ciphertext.length = payload.length + 1 + cs.tagSize := sealedWith_length hct
      have hinc := incrementServerCounter_eq ks
      by_cases hc : CanCount ks.serverState.state
      · rw [if_pos hc] at hinc
        simp only [fromResult_ok_bind, bind_of_ok hinc, if_pos hc, pure_apply, protectedRecord, hlen,
          ← hheader]
        congr 1
        rw [hfront, splice, show RECORD_HEADER_LEN = header.length from hheaderLen.symm,
          List.take_left, ← List.append_assoc, ← hlen, ← List.length_append, List.take_left]
      · rw [if_neg hc] at hinc
        simp only [fromResult_ok_bind, bind_of_error hinc, if_neg hc]

theorem padEnd_padded {inner : Bytes} {marker : UInt8} (hmarker : marker ≠ 0) (n : Nat) :
    padEnd (inner ++ marker :: List.replicate n 0) = some inner.length := by
  have hfind : (inner ++ marker :: List.replicate n 0).reverse.findIdx? (· != 0) = some n := by
    rw [List.reverse_append, List.reverse_cons, List.append_assoc, List.reverse_replicate,
      List.findIdx?_append]
    simp [List.findIdx?_cons, hmarker]
  rw [padEnd, hfind, Option.map_some, List.length_append, List.length_cons, List.length_replicate]
  congr 1
  omega

theorem padEnd_marked (hzero : marker.toU8 ≠ 0) :
    padEnd (payload ++ [marker.toU8]) = some payload.length :=
  padEnd_padded hzero 0

/-- The plaintext the server itself seals, read back. -/
theorem stripPadding_marked (hmarker : ContentType.of marker.toU8 = some marker)
    (hzero : marker.toU8 ≠ 0) :
    stripPadding (payload ++ [marker.toU8]) = .ok (marker, payload) := by
  simp only [stripPadding, padEnd_marked hzero]
  simp [hmarker]

theorem parseClientFinished_eq_ok {inner : Bytes} {verify : GenericArray cs.hashLen} :
    runParser (parseClientFinished cs) inner = .ok verify ↔ inner = finishedMessage verify := by
  have hmessage : finishedMessage verify =
      [HandshakeType.finished.toU8] ++ (bigEndian 3 cs.hashLen ++ (verify.val ++ [])) := by
    rw [finishedMessage, sized, verify.property, List.append_nil]
  rw [hmessage]
  constructor
  · intro h
    have h := outcome_eq_ok h
    simp only [parseClientFinished, bind_eq_ok, mapError_eq_ok, ParseBuffer.readU8_eq_ok] at h
    obtain ⟨type, b₁, h₁, h⟩ := h
    split at h
    · cases h
    next htype =>
      simp only [bind_eq_ok, mapError_eq_ok, ParseBuffer.readU24_eq_ok] at h
      obtain ⟨len, b₂, ⟨-, h₂⟩, h⟩ := h
      split at h
      · cases h
      next hlen =>
        simp only [bind_eq_ok, mapError_eq_ok, ParseBuffer.fill_eq_ok, get_apply,
          EStateM.Result.ok.injEq] at h
        obtain ⟨v, b₃, h₃, _, _, ⟨rfl, rfl⟩, h⟩ := h
        split at h
        · cases h
        next hempty =>
          have hrest : b₃.rest = [] :=
            ParseBuffer.isEmpty_iff.mp (by simpa using hempty)
          cases h
          rw [not_not.mp htype] at h₁
          rw [not_not.mp hlen] at h₂
          rw [← ParseBuffer.new_rest inner, h₁.rest_eq, h₂.rest_eq, h₃.rest_eq, hrest]
  · intro h
    obtain ⟨b₁, h₁, hrest₁⟩ := ParseBuffer.exists_reads (b := ParseBuffer.new inner) h
    obtain ⟨b₂, h₂, hrest₂⟩ := ParseBuffer.exists_reads hrest₁
    obtain ⟨b₃, h₃, hrest₃⟩ := ParseBuffer.exists_reads hrest₂
    have hlt : cs.hashLen < 256 ^ 3 := by
      have := hashLen_le_48 cs
      omega
    have hok : parseClientFinished cs (ParseBuffer.new inner) = .ok verify b₃ := by
      simp only [parseClientFinished]
      rw [bind_of_ok (mapError_of_ok (ParseBuffer.readU8_eq_ok.mpr h₁)), if_neg (by simp),
        bind_of_ok (mapError_of_ok (ParseBuffer.readU24_eq_ok.mpr ⟨hlt, h₂⟩)), if_neg (by simp),
        bind_of_ok (mapError_of_ok (ParseBuffer.fill_eq_ok.mpr h₃)), get_bind_apply,
        if_neg (by simp [ParseBuffer.isEmpty_iff.mpr hrest₃])]
      rfl
    rw [runParser, hok, outcome_ok]

/-- An accepted client Finished: everything that had to hold for it. -/
structure ClientFinished (P : Primitives cs) (record : Bytes) (ks : KeySchedule cs) where
  bodyLen : Nat
  plaintext : Bytes
  verify : GenericArray cs.hashLen
  prk : GenericArray cs.hashLen
  framed : checkFraming record = .ok bodyLen
  small : bodyLen ≤ 256
  opened : openedWith P ks.clientState.state record = some plaintext
  counts : CanCount ks.clientState.state
  stripped : stripPadding plaintext = .ok (.handshake, finishedMessage verify)
  secret : ks.clientState.state.trafficSecret = .initialized prk
  verified : verify = finishedMac P prk ks.serverState.transcriptHash

/-- The schedule an accepted Finished leaves behind. -/
def ClientFinished.schedule (f : ClientFinished P record ks) : KeySchedule cs :=
  absorb (applicationStage P (bumpClient ks)) (finishedMessage f.verify)

theorem finishedPayload_eq_ok {inner : Bytes} {verify : GenericArray cs.hashLen} :
    finishedPayload cs plaintext = .ok (inner, verify) ↔
      stripPadding plaintext = .ok (.handshake, inner) ∧ inner = finishedMessage verify := by
  simp only [finishedPayload, except_bind_eq_ok]
  constructor
  · rintro ⟨⟨contentType, inner'⟩, hstrip, h⟩
    dsimp only at h
    split at h
    · cases h
    next htype =>
      obtain ⟨v, hparse, h⟩ := except_bind_eq_ok.mp h
      cases h
      cases not_not.mp htype
      exact ⟨hstrip, parseClientFinished_eq_ok.mp hparse⟩
  · rintro ⟨hstrip, hinner⟩
    refine ⟨_, hstrip, ?_⟩
    simp only [ne_eq, not_true_eq_false, if_false, parseClientFinished_eq_ok.mpr hinner]
    rfl

theorem processClientFinishedIn_eq_ok :
    processClientFinishedIn P record ks = .ok () ks' ↔
      ∃ f : ClientFinished P record ks, ks' = f.schedule := by
  have hmaster : orCryptoError (KeySchedule.initializeMasterSecret P) (bumpClient ks) =
      .ok () (applicationStage P (bumpClient ks)) :=
    mapError_of_ok (KeySchedule.initializeMasterSecret_eq P _)
  rw [processClientFinishedIn, bind_eq_ok]
  simp only [fromResult_eq_ok, mapError_eq_ok_iff, get_bind_apply]
  constructor
  · rintro ⟨bodyLen, _, ⟨hframed, rfl⟩, h⟩
    split at h
    · cases h
    next hsmall =>
      simp only [bind_eq_ok, fromResult_eq_ok, mapError_eq_ok_iff, openRecord_eq_ok, get_apply,
        EStateM.Result.ok.injEq] at h
      obtain ⟨plaintext, _, ⟨hopen, hcount, rfl⟩, ⟨inner, verify⟩, _, ⟨hpayload, rfl⟩, h⟩ := h
      obtain ⟨_, _, ⟨rfl, rfl⟩, b, _, ⟨hverify, rfl⟩, h⟩ := h
      obtain ⟨hstrip, rfl⟩ := finishedPayload_eq_ok.mp hpayload
      obtain ⟨prk, hprk, rfl⟩ := KeySchedule.verifyFinished_eq_ok.mp hverify
      split at h
      next hmac =>
        refine ⟨⟨bodyLen, plaintext, verify, prk, hframed, by omega, hopen, hcount, hstrip, hprk,
          Subtype.ext (of_decide_eq_true hmac).symm⟩, ?_⟩
        rw [bind_of_ok hmaster] at h
        cases h
        rfl
      · cases h
  · rintro ⟨f, rfl⟩
    refine ⟨f.bodyLen, ks, ⟨f.framed, rfl⟩, ?_⟩
    rw [if_neg (Nat.not_lt.mpr f.small),
      bind_of_ok (openRecord_eq_ok.mpr ⟨f.opened, f.counts, rfl⟩)]
    simp only [finishedPayload_eq_ok.mpr ⟨f.stripped, rfl⟩, mapError_ok_eq, fromResult_ok_bind,
      get_bind_apply]
    have hverify : (bumpClient ks).verifyClientFinished P
        ⟨f.verify, some (P.hash ks.serverState.transcriptHash)⟩ = .ok true :=
      KeySchedule.verifyFinished_eq_ok.mpr ⟨f.prk, f.secret, (decide_eq_true (by rw [f.verified]; rfl)).symm⟩
    simp only [hverify, mapError_ok_eq, fromResult_ok_bind, if_true, bind_of_ok hmaster]
    rfl

theorem onSchedule_eq_ok {α : Type} {x : KeySchedule.M cs α} {a : α} :
    onSchedule x s = .ok a s' ↔
      ∃ ks, x s.schedule = .ok a ks ∧ s' = { s with schedule := ks } :=
  onPart_eq_ok

theorem processClientFinished_eq_ok :
    processClientFinished P record s = .ok () s' ↔
      ∃ f : ClientFinished P record s.schedule, s' = { s with schedule := f.schedule } := by
  simp only [processClientFinished, onSchedule_eq_ok, processClientFinishedIn_eq_ok]
  constructor
  · rintro ⟨_, ⟨f, rfl⟩, rfl⟩
    exact ⟨f, rfl⟩
  · rintro ⟨f, rfl⟩
    exact ⟨_, ⟨f, rfl⟩, rfl⟩

/-- What `encrypt_app_data` asks of its input and of the state it is called in. -/
structure Sealable (P : Primitives cs) (s : KeyScheduleState cs) (plaintext out : Bytes) : Prop where
  room : RECORD_HEADER_LEN + (plaintext.length + 1 + cs.tagSize) ≤ out.length
  size : plaintext.length + 1 + cs.tagSize ≤ 65535
  aead : (sealedWith P s plaintext .applicationData).isSome
  counts : CanCount s

theorem encryptAppData_eq_ok {bytes : Bytes} :
    encryptAppData P plaintext out s = .ok bytes s' ↔
      Sealable P s.schedule.serverState.state plaintext out ∧
      ∃ ciphertext, sealedWith P s.schedule.serverState.state plaintext .applicationData =
          some ciphertext ∧ bytes = protectedRecord ciphertext ∧
        s' = { s with schedule := bumpServer s.schedule } := by
  simp only [encryptAppData]
  by_cases hroom : out.length < RECORD_HEADER_LEN + (plaintext.length + 1 + cs.tagSize)
  · rw [if_pos hroom]
    exact ⟨fun h => (nomatch h), fun h => absurd h.1.room (by omega)⟩
  by_cases hsize : plaintext.length + 1 + cs.tagSize > 65535
  · rw [if_neg hroom, if_pos hsize]
    exact ⟨fun h => (nomatch h), fun h => absurd h.1.size (by omega)⟩
  rw [if_neg hroom, if_neg hsize, onSchedule_eq_ok, sealPayload_eq (by omega)]
  constructor
  · rintro ⟨ks, h, rfl⟩
    cases hct : sealedWith P s.schedule.serverState.state plaintext .applicationData with
    | none => simp [hct] at h
    | some ciphertext =>
        by_cases hc : CanCount s.schedule.serverState.state
        · simp only [hct, if_pos hc, EStateM.Result.ok.injEq] at h
          obtain ⟨rfl, rfl⟩ := h
          exact ⟨⟨by omega, by omega, by rw [hct]; rfl, hc⟩, ciphertext, rfl, rfl, rfl⟩
        · simp [hct, hc] at h
  · rintro ⟨hs, ciphertext, hct, rfl, rfl⟩
    exact ⟨bumpServer s.schedule, by simp only [hct, if_pos hs.counts], rfl⟩

/-- What the two decrypt operations ask of a record before they look at its content. -/
structure Openable (P : Primitives cs) (s : KeyScheduleState cs) (record buffer : Bytes)
    (contentType : ContentType) (payload : Bytes) : Prop where
  framed : ∃ bodyLen, checkFraming record = .ok bodyLen ∧ bodyLen ≤ buffer.length
  opened : ∃ plaintext, openedWith P s record = some plaintext ∧
    stripPadding plaintext = .ok (contentType, payload)
  counts : CanCount s

/-- The checks in their order. -/
theorem openPayload_eq : openPayload P record buffer ks =
    match checkFraming record with
    | .error e => .error (.err e) ks
    | .ok bodyLen =>
        if buffer.length < bodyLen then .error (.err .insufficientSpace) ks
        else match openedWith P ks.clientState.state record with
          | none => .error (.err .cryptoError) ks
          | some plaintext =>
              if CanCount ks.clientState.state then
                fromResult ((stripPadding plaintext).mapError .err) (bumpClient ks)
              else .error .panic ks := by
  rw [openPayload]
  cases checkFraming record with
  | error e => rfl
  | ok bodyLen =>
      simp only [mapError_ok_eq, fromResult_ok_bind]
      split
      · rfl
      · have hopen := @openRecord_eq cs P ks record
        cases hopened : openedWith P ks.clientState.state record with
        | none =>
            simp only [hopened] at hopen ⊢
            exact bind_of_error hopen
        | some plaintext =>
            simp only [hopened] at hopen ⊢
            split at hopen
            next hc =>
              rw [if_pos hc]
              exact bind_of_ok hopen
            next hc =>
              rw [if_neg hc]
              exact bind_of_error hopen

theorem openPayload_eq_ok {contentType : ContentType} :
    openPayload P record buffer ks = .ok (contentType, payload) ks' ↔
      Openable P ks.clientState.state record buffer contentType payload ∧ ks' = bumpClient ks := by
  rw [openPayload, bind_eq_ok]
  simp only [fromResult_eq_ok, mapError_eq_ok_iff]
  constructor
  · rintro ⟨bodyLen, _, ⟨hframed, rfl⟩, h⟩
    split at h
    · cases h
    next hroom =>
      obtain ⟨plaintext, _, hrecord, h⟩ := bind_eq_ok.mp h
      obtain ⟨hopen, hc, rfl⟩ := openRecord_eq_ok.mp hrecord
      obtain ⟨hstrip, rfl⟩ := fromResult_eq_ok.mp h
      exact ⟨⟨⟨bodyLen, hframed, by omega⟩, ⟨plaintext, hopen, mapError_eq_ok_iff.mp hstrip⟩, hc⟩, rfl⟩
  · rintro ⟨⟨⟨bodyLen, hframed, hroom⟩, ⟨plaintext, hopen, hstrip⟩, hc⟩, rfl⟩
    refine ⟨bodyLen, ks, ⟨hframed, rfl⟩, ?_⟩
    rw [if_neg (by omega), bind_of_ok (openRecord_eq_ok.mpr ⟨hopen, hc, rfl⟩), hstrip]
    rfl

theorem decryptAppData_eq_ok :
    decryptAppData P record buffer s = .ok payload s' ↔
      Openable P s.schedule.clientState.state record buffer .applicationData payload ∧
        s' = { s with schedule := bumpClient s.schedule } := by
  rw [decryptAppData, bind_eq_ok]
  constructor
  · rintro ⟨⟨contentType, data⟩, s₁, hrecord, h⟩
    obtain ⟨_, hpayload, rfl⟩ := onSchedule_eq_ok.mp hrecord
    obtain ⟨hopen, rfl⟩ := openPayload_eq_ok.mp hpayload
    dsimp only at h
    split at h
    · cases h
    next htype =>
      cases h
      cases not_not.mp htype
      exact ⟨hopen, rfl⟩
  · rintro ⟨hopen, rfl⟩
    exact ⟨_, _, onSchedule_eq_ok.mpr ⟨_, openPayload_eq_ok.mpr ⟨hopen, rfl⟩, rfl⟩, rfl⟩

theorem interpretPayload_appData {contentType : ContentType} {data : Bytes} :
    interpretPayload contentType data = .ok (.appData payload) ↔
      contentType = .applicationData ∧ data = payload := by
  cases contentType with
  | applicationData => simp [interpretPayload]
  | alert =>
      rw [interpretPayload.eq_def]
      split
      · next h => cases h
      · split <;> simp
      · simp
  | _ => simp [interpretPayload]

theorem decryptAppDataOrAlert_appData :
    decryptAppDataOrAlert P record buffer s = .ok (.appData payload) s' ↔
      Openable P s.schedule.clientState.state record buffer .applicationData payload ∧
        s' = { s with schedule := bumpClient s.schedule } := by
  rw [decryptAppDataOrAlert, bind_eq_ok]
  constructor
  · rintro ⟨⟨contentType, data⟩, s₁, hrecord, h⟩
    obtain ⟨_, hpayload, rfl⟩ := onSchedule_eq_ok.mp hrecord
    obtain ⟨hopen, rfl⟩ := openPayload_eq_ok.mp hpayload
    obtain ⟨hinterpret, rfl⟩ := fromResult_eq_ok.mp h
    obtain ⟨rfl, rfl⟩ := interpretPayload_appData.mp (mapError_eq_ok_iff.mp hinterpret)
    exact ⟨hopen, rfl⟩
  · rintro ⟨hopen, rfl⟩
    exact ⟨_, _, onSchedule_eq_ok.mpr ⟨_, openPayload_eq_ok.mpr ⟨hopen, rfl⟩, rfl⟩, rfl⟩

end Records

end Session

end GatoPskTls.Server
