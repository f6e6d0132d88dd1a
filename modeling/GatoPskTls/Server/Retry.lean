import GatoPskTls.Server.Calls
import GatoPskTls.Server.Peer

/-!
# Server: after a HelloRetryRequest

A session asks for a key share once. What the second ClientHello must repeat, what its
binder covers, and what key exchange it ends in.
-/
namespace GatoPskTls.Server

open GatoPskTls Stateful History Rfc8446

variable {cs : TlsCipherSuite}

namespace Session

variable {P : Primitives cs} {X : X25519}

theorem retry_sent {msg : Bytes} {config : TlsServerConfig} {s : Session cs}
    (r : Retry P msg config s) : r.session.hrrState.sent = true := rfl

/-- A ClientHello that answers a HelloRetryRequest: `retried` is the session the retry left
behind, `ch1` and `hrr` are the messages of that round, and `pre` is the session now. -/
structure AnswersRetry (P : Primitives cs) (retried pre : Session cs) (ch1 hrr : Bytes)
    (hello₁ : ClientHelloRef) (msg : Bytes) (config : TlsServerConfig) where
  hello : ClientHelloRef
  psk : PreSharedKeyClientHello
  idx : Nat
  binder : Bytes
  prk : GenericArray cs.hashLen
  parsed : parseClientHello msg = .ok hello
  random : hello.random = hello₁.random
  sessionId : hello.legacySessionId = hello₁.legacySessionId
  offered : preSharedKey hello = some psk
  identity : psk.identities[idx]? = some config.pskIdentity
  its_binder : psk.binders[idx]? = some binder
  binderKey : retried.schedule.clientState.binderKey = .initialized prk
  verifies : (finishedMac P prk (pre.schedule.serverState.transcriptHash ++
    msg.take hello.bindersStartOffset)).val = binder
  transcript : messageHash P ch1 ++ hrr <+: pre.schedule.serverState.transcriptHash

theorem firstFlight_answersRetry {msg₁ msg : Bytes} {config₁ config : TlsServerConfig}
    {s₁ pre : Session cs} (r : Retry P msg₁ config₁ s₁) (hpinned : Pinned r.session pre)
    (f : FirstFlight P X msg config pre) :
    Nonempty (AnswersRetry P r.session pre msg₁ r.hrr r.offer.hello msg config) := by
  obtain ⟨hparse, -, -, hch2, -, hid⟩ := examine_eq_ok.mp f.examined
  have hsent : pre.hrrState.sent = true := by rw [hpinned.hrrState]; rfl
  obtain ⟨hrandom, hsid⟩ := (checkCh2_sent hsent).mp hch2
  rw [hpinned.hrrState] at hrandom hsid
  rw [Retry.session, snapshot_sessionId] at hsid
  obtain ⟨psk, hpsk, hidentity, hbinder⟩ := locateOurIdentity_eq_ok hid
  obtain ⟨prk, hprk, hmac⟩ := f.binder
  rw [prepared_of_sent hsent, hpinned.schedule.binderKey] at hprk
  rw [binderBase, if_pos hsent] at hmac
  exact ⟨⟨f.offer.hello, psk, f.offer.selectedIdx, f.offer.receivedBinder, prk, hparse, hrandom, hsid,
    hpsk, hidentity, hbinder, hprk, hmac, hpinned.schedule.transcript⟩⟩

section Runs

variable {h newer older : List (Event (Session cs) Call Answer)} {s : Session cs}
  {e : Event (Session cs) Call Answer} {bytes : Bytes}

/-- The retry in a history, and what every state after it keeps. -/
theorem reaches_retry (hr : Reaches (step P X) new (newer ++ e :: older) s)
    (hretry : e.out = .handshake (.ok (.helloRetryRequest bytes))) :
    ∃ msg config out, e.call = .processClientHello msg config out ∧
      ∃ r : Retry P msg config e.pre, bytes = plaintextRecord r.hrr ∧
        (step P X e.pre e.call).2 = r.session ∧ Pinned r.session s ∧
        ∀ e' ∈ newer, Pinned r.session e'.pre ∧ e'.out = (step P X e'.pre e'.call).1 := by
  obtain ⟨-, hout, -⟩ := hr.split
  obtain ⟨msg, config, out, hcall, r, hbytes, hs⟩ := step_retry (hout ▸ hretry)
  have hsuffix := hr.suffix
  rw [hs] at hsuffix
  refine ⟨msg, config, out, hcall, r, hbytes, hs, reaches_pinned (retry_sent r) hsuffix, ?_⟩
  intro e' he'
  obtain ⟨newer', between, rfl⟩ := List.append_of_mem he'
  obtain ⟨hpre, hout', -⟩ := hsuffix.split
  exact ⟨reaches_pinned (retry_sent r) hpre, hout'⟩

/-- At most one HelloRetryRequest is sent; after it the pinned fields stay those of the
ClientHello it answered, and a ClientHello that gets a first flight repeats them and carries a
binder over the whole conversation so far. -/
theorem second_hello_answers_retry (hr : Reaches (step P X) new h s)
    (hsplit : h = newer ++ e :: older)
    (hretry : e.out = .handshake (.ok (.helloRetryRequest bytes))) :
    ∃ ch1 config out hello hrr, e.call = .processClientHello ch1 config out ∧
      parseClientHello ch1 = .ok hello ∧ bytes = plaintextRecord hrr ∧
      (∀ e' ∈ newer, ∀ b, e'.out ≠ .handshake (.ok (.helloRetryRequest b))) ∧
      (∀ t, t = s ∨ (∃ e' ∈ newer, t = e'.pre) →
        t.hrrState = (step P X e.pre e.call).2.hrrState ∧ t.hrrState.ch1Random = hello.random ∧
        t.hrrState.ch1SessionId.val.take t.hrrState.ch1SessionIdLen.toNat = hello.legacySessionId) ∧
      (∀ e' ∈ newer, ∀ ch2 config₂ out₂ flight, e'.call = .processClientHello ch2 config₂ out₂ →
        e'.out = .handshake (.ok (.firstFlight flight)) →
        Nonempty (AnswersRetry P (step P X e.pre e.call).2 e'.pre ch1 hrr hello ch2 config₂)) := by
  subst hsplit
  obtain ⟨ch1, config, out, hcall, r, hbytes, hs, hpinned, hnewer⟩ := reaches_retry hr hretry
  rw [hs]
  refine ⟨ch1, config, out, r.offer.hello, r.hrr, hcall, (examine_eq_ok.mp r.examined).1, hbytes,
    ?_, ?_, ?_⟩
  · intro e' he' b hout
    obtain ⟨hpre, hstep⟩ := hnewer e' he'
    obtain ⟨_, _, _, _, r', -⟩ := step_retry (hstep ▸ hout)
    have := r'.not_sent
    rw [hpre.hrrState, retry_sent r] at this
    cases this
  · intro t ht
    have hpin : Pinned r.session t := by
      rcases ht with rfl | ⟨e', he', rfl⟩
      · exact hpinned
      · exact (hnewer e' he').1
    rw [hpin.hrrState]
    exact ⟨rfl, rfl, snapshot_sessionId r.sessionId_le⟩
  · intro e' he' ch2 config₂ out₂ flight hcall' hout
    obtain ⟨hpre, hstep⟩ := hnewer e' he'
    obtain ⟨_, _, _, hcall₂, f, -⟩ := step_firstFlight (hstep ▸ hout)
    cases hcall'.symm.trans hcall₂
    exact firstFlight_answersRetry r hpre f

/-- A ClientHello with room for any answer. -/
def round (msg : Bytes) : Call := .processClientHello msg Peer.config Peer.room

/-- The session after the retry. -/
def retried : Session .aes128GcmSha256 := (step Peer.suite Peer.additive new (round Peer.shareless)).2

def retryEvent : Event (Session .aes128GcmSha256) Call Answer :=
  ⟨new, round Peer.shareless, (step Peer.suite Peer.additive new (round Peer.shareless)).1⟩

def answerEvent : Event (Session .aes128GcmSha256) Call Answer :=
  ⟨retried, round Peer.answering, (step Peer.suite Peer.additive retried (round Peer.answering)).1⟩

theorem reaches_answer : Reaches (step Peer.suite Peer.additive) new [answerEvent, retryEvent]
    (step Peer.suite Peer.additive retried (round Peer.answering)).2 :=
  .call (round Peer.answering) (.call (round Peer.shareless) .nil)

theorem retryEvent_out :
    retryEvent.out = .handshake (.ok (.helloRetryRequest Peer.retryRecord)) := by decide +kernel

theorem answerEvent_out :
    answerEvent.out = .handshake (.ok (.firstFlight answerEvent.out.carried)) := by decide +kernel

theorem second_hello_answers_retry_run :
    ∃ hello hrr, parseClientHello Peer.shareless = .ok hello ∧
      Peer.retryRecord = plaintextRecord hrr ∧
      Nonempty (AnswersRetry Peer.suite (step Peer.suite Peer.additive retryEvent.pre
        retryEvent.call).2 answerEvent.pre Peer.shareless hrr hello Peer.answering Peer.config) := by
  obtain ⟨ch1, config, out, hello, hrr, hcall, hparse, hbytes, -, -, hsecond⟩ :=
    @second_hello_answers_retry _ _ _ _ [answerEvent] [] _ retryEvent _ reaches_answer rfl
      retryEvent_out
  obtain ⟨rfl, -, -⟩ := Call.processClientHello.inj hcall
  exact ⟨hello, hrr, hparse, hbytes, hsecond answerEvent List.mem_cons_self Peer.answering Peer.config
    Peer.room answerEvent.out.carried rfl answerEvent_out⟩

/-- The flight was negotiated with Diffie-Hellman: its ServerHello carries the server's X25519
share, and the handshake secret was extracted from the shared secret with the client's. -/
def FirstFlight.Dhe {msg : Bytes} {config : TlsServerConfig} {s : Session cs}
    (f : FirstFlight P X msg config s) : Prop :=
  ∃ dhe share, ∃ hshare : share.length = X25519_LEN, config.dheKeypair = some dhe ∧
    findClientX25519Share f.offer.hello = .ok (some share) ∧
    ServerHelloExtension.keyShare ⟨⟨.x25519, dhe.publicKey.val⟩⟩ ∈ f.exts ∧
    f.session.schedule.shared.hkdf = .initialized
      (P.extract (prepared P config s).schedule.shared.secret.val (X.mult dhe.secret ⟨share, hshare⟩).val)

theorem FirstFlight.dhe_iff {msg : Bytes} {config : TlsServerConfig} {s : Session cs}
    (f : FirstFlight P X msg config s) :
    f.Dhe ↔ config.dheKeypair.isSome ∧ OffersPskDheKe f.offer.hello ∧
      ∃ share, findClientX25519Share f.offer.hello = .ok (some share) := by
  have hkex := (examine_eq_ok.mp f.examined).2.2.2.2.1
  rw [f.decided] at hkex
  constructor
  · rintro ⟨dhe, share, -, hdhe, hshare, hmem, -⟩
    refine ⟨by rw [hdhe]; rfl, ?_, share, hshare⟩
    have hexts := f.extensions
    cases hmode : f.mode with
    | pskKe =>
        rw [hmode, serverHelloExtensions] at hexts
        rw [← Except.ok.inj hexts] at hmem
        simp at hmem
    | pskDheKe share' =>
        rw [hmode] at hkex
        exact (decideKex_pskDheKe.mp hkex).1
  · rintro ⟨hdhe, hoffers, share, hshare⟩
    obtain ⟨dhe, hdhe⟩ := Option.isSome_iff_exists.mp hdhe
    have hmode : f.mode = .pskDheKe share := by
      have hdecide : decideKex f.offer.hello config s.hrrState.sent = .ok (.use (.pskDheKe share)) :=
        decideKex_pskDheKe.mpr ⟨hoffers, by rw [hdhe]; rfl, hshare⟩
      rw [hdecide] at hkex
      exact (KexDecision.use.inj (Except.ok.inj hkex)).symm
    have hlen := findClientX25519Share_length hshare
    have hexts := f.extensions
    have hshared := f.shared
    rw [hmode, serverHelloExtensions, hdhe] at hexts
    simp only [hmode, sharedSecret, hdhe, dif_pos hlen] at hshared
    split at hshared
    · cases hshared
    · refine ⟨dhe, share, hlen, hdhe, hshare, by rw [← Except.ok.inj hexts]; simp, ?_⟩
      rw [Option.some.inj hshared]
      rfl

/-- With one config throughout, the flight after a retry is negotiated with Diffie-Hellman
exactly when the second ClientHello still offers `psk_dhe_ke` and now has an X25519 share. -/
theorem flight_after_retry_dhe_iff (hr : Reaches (step P X) new h s)
    (hsplit : h = newer ++ e :: older)
    (hretry : e.out = .handshake (.ok (.helloRetryRequest bytes)))
    {ch1 out ch2 out₂ flight : Bytes} {config : TlsServerConfig}
    (hcall : e.call = .processClientHello ch1 config out)
    {e' : Event (Session cs) Call Answer} (he' : e' ∈ newer)
    (hcall' : e'.call = .processClientHello ch2 config out₂)
    (hflight : e'.out = .handshake (.ok (.firstFlight flight))) :
    ∃ f : FirstFlight P X ch2 config e'.pre, f.Written flight ∧
      (step P X e'.pre e'.call).2 = f.session ∧
      (f.Dhe ↔ OffersPskDheKe f.offer.hello ∧
        ∃ share, findClientX25519Share f.offer.hello = .ok (some share)) := by
  subst hsplit
  obtain ⟨_, _, _, hcall₁, r, -, -, -, hnewer⟩ := reaches_retry hr hretry
  cases hcall.symm.trans hcall₁
  obtain ⟨-, hstep⟩ := hnewer e' he'
  obtain ⟨_, _, _, hcall₂, f, hwritten, hs⟩ := step_firstFlight (hstep ▸ hflight)
  cases hcall'.symm.trans hcall₂
  have hdhe := (decideKex_retry r.decideKex_eq).2.2
  exact ⟨f, hwritten, hs, f.dhe_iff.trans ⟨fun h => h.2, fun h => ⟨hdhe, h⟩⟩⟩

theorem flight_after_retry_dhe_run :
    ∃ f : FirstFlight Peer.suite Peer.additive Peer.answering Peer.config answerEvent.pre,
      f.Written answerEvent.out.carried ∧ f.Dhe := by
  obtain ⟨f, hwritten, -, hiff⟩ := @flight_after_retry_dhe_iff _ _ _ _ [answerEvent] [] _ retryEvent _
    reaches_answer rfl retryEvent_out _ _ _ _ _ Peer.config rfl answerEvent List.mem_cons_self rfl
    answerEvent_out
  have hhello : (parseClientHello Peer.answering).toOption.map (fun hello =>
      ((pskKeyExchangeModes hello).map (offersMode .pskDheKe), findClientX25519Share hello)) =
      some (some true, .ok (some (Peer.additive.mult Peer.clientSecret Peer.additive.basepoint).val)) := by
    decide +kernel
  rw [(examine_eq_ok.mp f.examined).1] at hhello
  obtain ⟨hmodes, hshare⟩ := Prod.mk.inj (Option.some.inj hhello)
  obtain ⟨modes, hmodes, hoffers⟩ := Option.map_eq_some_iff.mp hmodes
  exact ⟨f, hwritten, hiff.mpr ⟨⟨modes, hmodes, hoffers⟩, _, hshare⟩⟩

/-- The second ClientHello adds `psk_ke` and brings no share: the flight is sent, and it is not
a Diffie-Hellman one. -/
theorem second_hello_drops_share :
    (step Peer.suite Peer.additive new (round Peer.shareless)).1 =
        .handshake (.ok (.helloRetryRequest Peer.retryRecord)) ∧
      ∃ (f : FirstFlight Peer.suite Peer.additive (Peer.second [0, 1] []) Peer.config retried)
        (flight : Bytes),
        (step Peer.suite Peer.additive retried (round (Peer.second [0, 1] []))).1 =
          .handshake (.ok (.firstFlight flight)) ∧ f.Written flight ∧ ¬f.Dhe := by
  refine ⟨by decide +kernel, ?_⟩
  have hflight : (step Peer.suite Peer.additive retried (round (Peer.second [0, 1] []))).1 =
      .handshake (.ok (.firstFlight
        (step Peer.suite Peer.additive retried (round (Peer.second [0, 1] []))).1.carried)) := by
    decide +kernel
  obtain ⟨_, _, _, hcall, f, hwritten, -⟩ := step_firstFlight hflight
  obtain ⟨rfl, rfl, -⟩ := Call.processClientHello.inj hcall
  refine ⟨f, _, hflight, hwritten, fun hdhe => ?_⟩
  obtain ⟨-, -, share, hshare⟩ := f.dhe_iff.mp hdhe
  have hparse := (examine_eq_ok.mp f.examined).1
  have hnone : (parseClientHello (Peer.second [0, 1] [])).toOption.map findClientX25519Share =
      some (.ok none) := by decide +kernel
  rw [hparse] at hnone
  cases hshare.symm.trans (Option.some.inj hnone)

end Runs

end Session

end GatoPskTls.Server
