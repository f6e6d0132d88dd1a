import GatoPskTls.Server.Calls
import GatoPskTls.Server.Peer

/-!
# Server: what a failed ClientHello leaves behind

The early secret is extracted before the binder is looked at, and the transcript takes the
ClientHello before the flight is written. A failure leaves the session as it was only when
it comes before both.
-/
namespace GatoPskTls.Server.Session

open GatoPskTls Stateful Rfc8446

section Failures

variable {cs : TlsCipherSuite} {P : Primitives cs} {X : X25519} {s s' : Session cs}
  {msg out : Bytes} {config : TlsServerConfig} {offer : Offer} {stop : Stop}

/-- The schedule already stands where the early secret of this PSK would bring it. -/
structure Settled (P : Primitives cs) (psk : Bytes) (ks : KeySchedule cs) : Prop where
  shared : ks.shared =
    ⟨nextSalt P (P.extract ks.shared.secret.val psk), .initialized (P.extract ks.shared.secret.val psk)⟩
  binderKey : ks.clientState.binderKey =
    .initialized (deriveSecret P (P.extract ks.shared.secret.val psk) .extBinder [])

theorem early_eq_self_iff {psk : Bytes} {ks : KeySchedule cs} :
    early P psk ks = ks ↔ Settled P psk ks := by
  constructor
  · intro h
    have hshared := congrArg KeySchedule.shared h
    have hbinder := congrArg (·.clientState.binderKey) h
    exact ⟨hshared.symm, hbinder.symm⟩
  · intro h
    obtain ⟨hshared, hbinder⟩ := h
    simp only [early]
    rw [← hshared, ← hbinder]

theorem prepared_eq_self_iff :
    prepared P config s = s ↔
      s.hrrState.sent = true ∨ Settled P config.pskSecret s.schedule := by
  cases hsent : s.hrrState.sent with
  | true => simp [prepared_of_sent hsent]
  | false =>
      rw [prepared_of_not_sent hsent, Session.ext_iff]
      simp [early_eq_self_iff]

/-- The ClientHello fails before the session is written to: it is turned down without its
binder being looked at, or the session needs no binder key for it and it does not get as far
as the first flight. -/
def TurnedDown (P : Primitives cs) (msg : Bytes) (config : TlsServerConfig) (s : Session cs) :
    Prop :=
  (∃ e, examine msg config s.hrrState = .error e) ∨
    (s.hrrState.sent = true ∨ Settled P config.pskSecret s.schedule) ∧
      ∀ offer mode, examine msg config s.hrrState = .ok offer → offer.decision = .use mode →
        ¬ BinderVerifies P s.schedule.clientState.binderKey s.binderBase msg offer

/-- A ClientHello whose binder is wrong leaves the session with the key it was checked under. -/
theorem processClientHello_of_not_verifies (hexamine : examine msg config s.hrrState = .ok offer)
    (hb : ¬ BinderVerifies P (prepared P config s).schedule.clientState.binderKey s.binderBase msg
      offer) :
    after (processClientHello P X msg config out s) = prepared P config s := by
  have hoffset := parseClientHello_offset_le (examine_eq_ok.mp hexamine).1
  rw [processClientHello, get_bind_apply, hexamine, fromResult_ok_bind,
    bind_of_ok prepareBinderKey_eq]
  cases hcheck : checkBinder P msg offer (prepared P config s) with
  | ok a t =>
      obtain ⟨hverifies, -⟩ := (checkBinder_eq_ok hoffset).mp hcheck
      rw [prepared_binderBase] at hverifies
      exact absurd hverifies hb
  | error e t =>
      rw [bind_of_error hcheck]
      exact ((checkBinder_keeps offer).error hcheck).symm

/-- A retry that does not fit leaves the session as it was prepared. -/
theorem retry_eq_error {group : NamedGroup} (hsid : offer.hello.legacySessionId.length ≤ 32)
    (h : retry P msg offer group out s = .error stop s') : s' = s := by
  rcases bind_eq_error.mp h with hwrite | ⟨bytes, t, -, hsnapshot⟩
  · simp only [writing] at hwrite
    cases hx : writeHelloRetryRequestRecord P offer.hello.legacySessionId group msg
        ⟨s.schedule, .new out⟩ with
    | ok a d => simp [hx] at hwrite
    | error e d =>
        simp only [hx, EStateM.Result.error.injEq] at hwrite
        rw [← hwrite.2, writeHelloRetryRequestRecord_eq_error hx]
  · simp only [snapshotCh1] at hsnapshot
    rcases bind_eq_error.mp hsnapshot with hset | ⟨_, _, -, hpure⟩
    · rw [get_bind_apply, dif_pos hsid] at hset
      cases hset
    · cases hpure

/-- Once the first flight is begun, the transcript holds the ClientHello. -/
theorem firstFlight_transcript (msg : Bytes) (config : TlsServerConfig) (offer : Offer)
    (mode : KexMode) (out : Bytes) (s : Session cs) :
    s.schedule.serverState.transcriptHash ++ msg <+:
      (after (firstFlight P X msg config offer mode out s)).schedule.serverState.transcriptHash := by
  have hupdate : onSchedule (KeySchedule.updateTranscript msg) s =
      .ok () { s with schedule := absorb s.schedule msg } := rfl
  have hrest : Keeps Pinned (do
      let bytes ← writing out (writeFlight P X config offer mode)
      return HandshakeOutput.firstFlight bytes) :=
    .bind (keeps_writing (keeps_writeFlight _ _ _) _) fun _ => .pure _
  rw [firstFlight, bind_of_ok hupdate]
  exact (hrest { s with schedule := absorb s.schedule msg }).schedule.transcript

/-- A failed ClientHello leaves the session as it was exactly when it was turned down before
the session was written to. -/
theorem failed_hello_keeps_session_iff
    (h : processClientHello P X msg config out s = .error stop s') :
    s' = s ↔ TurnedDown P msg config s := by
  have hafter : after (processClientHello P X msg config out s) = s' := by rw [h]; rfl
  cases hexamine : examine msg config s.hrrState with
  | error e =>
      have hs : s' = s := by
        rw [processClientHello, get_bind_apply, hexamine] at h
        cases h
        rfl
      exact ⟨fun _ => .inl ⟨e, hexamine⟩, fun _ => hs⟩
  | ok offer =>
      have hturned : TurnedDown P msg config s ↔ prepared P config s = s ∧
          ∀ mode, offer.decision = .use mode →
            ¬ BinderVerifies P s.schedule.clientState.binderKey s.binderBase msg offer := by
        rw [TurnedDown, hexamine, prepared_eq_self_iff]
        constructor
        · rintro (⟨e, he⟩ | ⟨hsettled, hnot⟩)
          · cases he
          · exact ⟨hsettled, fun mode => hnot offer mode rfl⟩
        · rintro ⟨hsettled, hnot⟩
          refine .inr ⟨hsettled, fun offer' mode hoffer => ?_⟩
          cases hoffer
          exact hnot mode
      rw [hturned]
      by_cases hb : BinderVerifies P (prepared P config s).schedule.clientState.binderKey
          s.binderBase msg offer
      · rw [processClientHello_prepared hexamine hb] at h hafter
        cases hd : offer.decision with
        | retry group =>
            rw [hd] at h
            have hsid := parseClientHello_sessionId_le (examine_eq_ok.mp hexamine).1
            rw [retry_eq_error hsid h]
            simp
        | use mode =>
            rw [hd] at hafter
            -- The transcript has grown by the message, which is not empty.
            have hgrown := (firstFlight_transcript (P := P) (X := X) msg config offer mode out
              (prepared P config s)).length_le
            have hhead := parseClientHello_head (examine_eq_ok.mp hexamine).1
            have hpos : 0 < msg.length := by
              apply List.length_pos_iff.mpr
              rintro rfl
              cases hhead
            constructor
            · intro hs
              rw [hafter, hs, prepared_transcript, List.length_append] at hgrown
              omega
            · rintro ⟨hprepared, hnot⟩
              rw [hprepared] at hb
              exact absurd hb (hnot mode rfl)
      · have hs : s' = prepared P config s :=
          hafter ▸ processClientHello_of_not_verifies hexamine hb
        rw [hs]
        constructor
        · intro hprepared
          rw [hprepared] at hb
          exact ⟨hprepared, fun _ _ => hb⟩
        · exact fun hprepared => hprepared.1

end Failures

open Peer

/-- A ClientHello like `answering` with zeros for its binder. -/
def forged : Bytes :=
  hello [1] [additive.mult clientSecret additive.basepoint] (KeySchedule.zero .aes128GcmSha256)

/-- The session that waits for the second ClientHello. -/
def awaitingSecond : Session .aes128GcmSha256 :=
  after (processClientHello suite additive shareless config room .new)

/-- After a retry a forged binder is turned down without a trace. -/
theorem forged_binder_leaves_no_trace :
    ∃ t, processClientHello suite additive forged config room awaitingSecond =
        .error (.err (fatal .decryptError)) t ∧ t = awaitingSecond ∧
      TurnedDown suite forged config awaitingSecond := by
  have h : processClientHello suite additive forged config room awaitingSecond =
      .error (.err (fatal .decryptError)) _ := outcome_eq_error (by decide +kernel)
  have hsame : after (processClientHello suite additive forged config room awaitingSecond) =
      awaitingSecond := by
    decide +kernel
  exact ⟨_, h, hsame, (failed_hello_keeps_session_iff h).mp hsame⟩

/-- A suite whose outputs tell any two keys apart by their first byte. -/
def sensitive : Primitives .aes128GcmSha256 :=
  { suite with
    extract := fun salt ikm => checksums _ (ikm ++ salt.take 1)
    expand := fun prk info n => checksums n (info ++ prk.val.take 1)
    hmac := fun key message => checksums _ (message ++ key.take 1) }

/-- The ClientHello that a fresh session of that suite answers. -/
def sound : Bytes :=
  bound sensitive (started sensitive config.pskSecret)
    (hello [1] [additive.mult clientSecret additive.basepoint])

/-- A fresh session answers `sound`. Once it has refused a forged binder, or has been given no
room for the flight, it turns the same ClientHello down. -/
theorem failed_hello_spoils_session :
    (∃ flight, outcome (processClientHello sensitive additive sound config room .new) =
      .ok (.firstFlight flight)) ∧
    (∃ t, processClientHello sensitive additive forged config room .new =
        .error (.err (fatal .decryptError)) t ∧ t ≠ .new ∧
      outcome (processClientHello sensitive additive sound config room t) =
        .error (.err (fatal .decryptError))) ∧
    ∃ t, processClientHello sensitive additive sound config [] .new =
        .error (.err .insufficientSpace) t ∧ t ≠ .new ∧
      outcome (processClientHello sensitive additive sound config room t) =
        .error (.err (fatal .decryptError)) := by
  refine ⟨?_, ?_, ?_⟩
  · have h : (outcome (processClientHello sensitive additive sound config room .new)).map
        (fun a => decide (a = .firstFlight a.bytes)) = .ok true := by decide +kernel
    cases hrun : outcome (processClientHello sensitive additive sound config room .new) with
    | error e => simp [hrun, Except.map] at h
    | ok a =>
        simp only [hrun, Except.map, Except.ok.injEq, decide_eq_true_eq] at h
        exact ⟨a.bytes, by rw [← h]⟩
  · exact ⟨_, outcome_eq_error (by decide +kernel), by decide +kernel, by decide +kernel⟩
  · exact ⟨_, outcome_eq_error (by decide +kernel), by decide +kernel, by decide +kernel⟩

end GatoPskTls.Server.Session
