import GatoPskTls.Server.SessionSpec

/-!
# The client's Finished, accepted or not

What a record has to be for `process_client_finished` to accept it, said about its bytes, and
what is left behind by a record it refuses.
-/
namespace GatoPskTls.Server.Session

open Stateful BigEndian Rfc8446

variable {cs : TlsCipherSuite} {P : Primitives cs} {ks ks' : KeySchedule cs} {record : Bytes}

/-- Some bytes are all zeros, or end in a byte that is not zero and zeros behind it. -/
theorem zeros_or_marked (plaintext : Bytes) :
    plaintext = List.replicate plaintext.length 0 ∨
      ∃ inner marker n, marker ≠ 0 ∧ plaintext = inner ++ marker :: List.replicate n 0 := by
  induction plaintext with
  | nil => exact .inl rfl
  | cons byte rest ih =>
      rcases ih with hzeros | ⟨inner, marker, n, hmarker, hrest⟩
      · by_cases hbyte : byte = 0
        · refine .inl ?_
          rw [List.length_cons, List.replicate_succ, hbyte, ← hzeros]
        · exact .inr ⟨[], byte, rest.length, hbyte, by rw [← hzeros]; rfl⟩
      · exact .inr ⟨byte :: inner, marker, n, hmarker, by rw [hrest]; rfl⟩

theorem padEnd_zeros (n : Nat) : padEnd (List.replicate n 0) = none := by
  simp [padEnd]

/-- What is in front of the padding, and its type. -/
theorem stripPadding_eq_ok {plaintext inner : Bytes} {contentType : ContentType}
    (htype : contentType.toU8 ≠ 0) :
    stripPadding plaintext = .ok (contentType, inner) ↔
      ∃ n, plaintext = inner ++ contentType.toU8 :: List.replicate n 0 := by
  have hpadded : ∀ (inner : Bytes) (marker : UInt8) (n : Nat), marker ≠ 0 →
      padEnd (inner ++ marker :: List.replicate n 0) = some inner.length ∧
      (inner ++ marker :: List.replicate n 0)[inner.length]?.bind ContentType.of =
        ContentType.of marker := by
    intro inner marker n hmarker
    exact ⟨padEnd_padded hmarker n, by simp⟩
  constructor
  · intro h
    rcases zeros_or_marked plaintext with hzeros | ⟨inner', marker, n, hmarker, rfl⟩
    · rw [hzeros, stripPadding, padEnd_zeros] at h
      cases h
    · obtain ⟨hend, hof⟩ := hpadded inner' marker n hmarker
      simp only [stripPadding, hend, hof] at h
      cases htag : ContentType.of marker with
      | none =>
          rw [htag] at h
          cases h
      | some c =>
          rw [htag, List.take_left] at h
          cases h
          exact ⟨n, by rw [ContentType.toU8_of htag]⟩
  · rintro ⟨n, rfl⟩
    obtain ⟨hend, hof⟩ := hpadded inner contentType.toU8 n htype
    simp only [stripPadding, hend, hof, ContentType.of_toU8, List.take_left]

theorem checkFraming_eq_ok {bodyLen : Nat} :
    checkFraming record = .ok bodyLen ↔
      RECORD_HEADER_LEN ≤ record.length ∧ record.head? = some ContentType.applicationData.toU8 ∧
        fromBigEndian ((record.drop 3).take 2) = (record.drop RECORD_HEADER_LEN).length ∧
        bodyLen = (record.drop RECORD_HEADER_LEN).length := by
  rw [checkFraming, List.length_drop]
  by_cases hlen : record.length < RECORD_HEADER_LEN
  · rw [if_pos hlen]
    exact ⟨fun h => (nomatch h), fun h => absurd h.1 (by omega)⟩
  by_cases htype : record.head? = some ContentType.applicationData.toU8
  · rw [if_neg hlen, if_neg (not_not.mpr htype)]
    dsimp only
    split
    · exact ⟨fun h => (nomatch h), fun h => absurd h.2.2.1 (by omega)⟩
    · rw [Except.ok.injEq]
      constructor
      · rintro rfl
        exact ⟨by omega, htype, by omega, by omega⟩
      · rintro ⟨-, -, hfield, rfl⟩
        exact hfield
  · rw [if_neg hlen, if_pos htype]
    exact ⟨fun h => (nomatch h), fun h => absurd h.2.1 htype⟩

/-- The record of a genuine client Finished under a handshake secret. -/
structure Genuine (P : Primitives cs) (ks : KeySchedule cs) (secret : GenericArray cs.hashLen)
    (record : Bytes) : Prop where
  header : 5 ≤ record.length
  contentType : record.head? = some 23
  length : fromBigEndian ((record.drop 3).take 2) = (record.drop 5).length
  small : (record.drop 5).length ≤ 256
  opens : ∃ n, P.aeadOpen ks.clientState.state.key
      (KeyScheduleState.nonce ks.clientState.state.counter ks.clientState.state.iv)
      (record.take 5) (record.drop 5) =
    some (([0x14] ++ bigEndian 3 cs.hashLen ++
      (finishedMac P secret ks.serverState.transcriptHash).val) ++ 0x16 :: List.replicate n 0)

/-- The record is framed, fits the buffer of the handshake and opens under the client's key. -/
def AeadPasses (P : Primitives cs) (ks : KeySchedule cs) (record : Bytes) : Prop :=
  ∃ bodyLen plaintext, checkFraming record = .ok bodyLen ∧ bodyLen ≤ 256 ∧
    openedWith P ks.clientState.state record = some plaintext

theorem genuine_of_clientFinished {secret : GenericArray cs.hashLen}
    (hsecret : ks.clientState.state.trafficSecret = .initialized secret)
    (f : ClientFinished P record ks) : Genuine P ks secret record := by
  obtain ⟨hheader, htype, hlength, hbody⟩ := checkFraming_eq_ok.mp f.framed
  obtain ⟨n, hplain⟩ := (stripPadding_eq_ok (by decide)).mp f.stripped
  have hprk : f.prk = secret := Secret.initialized.inj (f.secret.symm.trans hsecret)
  refine ⟨hheader, htype, hlength, hbody ▸ f.small, n, ?_⟩
  refine f.opened.trans (congrArg some ?_)
  rw [hplain, finishedMessage, sized, f.verified, hprk,
    (finishedMac P secret ks.serverState.transcriptHash).property]
  simp only [List.append_assoc]
  rfl

theorem clientFinished_of_genuine {secret : GenericArray cs.hashLen}
    (hsecret : ks.clientState.state.trafficSecret = .initialized secret)
    (hcount : CanCount ks.clientState.state) (hgenuine : Genuine P ks secret record) :
    Nonempty (ClientFinished P record ks) := by
  obtain ⟨n, hopens⟩ := hgenuine.opens
  refine ⟨{
    bodyLen := (record.drop RECORD_HEADER_LEN).length
    plaintext := _
    verify := finishedMac P secret ks.serverState.transcriptHash
    prk := secret
    framed := checkFraming_eq_ok.mpr
      ⟨hgenuine.header, hgenuine.contentType, hgenuine.length, rfl⟩
    small := hgenuine.small
    opened := hopens
    counts := hcount
    stripped := ?_
    secret := hsecret
    verified := rfl }⟩
  refine (stripPadding_eq_ok (by decide)).mpr ⟨n, ?_⟩
  rw [finishedMessage, sized, (finishedMac P secret ks.serverState.transcriptHash).property,
    List.append_assoc]
  rfl

/-- Behind the AEAD check nothing is written until the Finished has been accepted. -/
theorem checkFinished_error {e : Stop} {plaintext : Bytes} {snapshot : GenericArray cs.hashLen}
    (h : (do
      let (inner, verify) ← fromResult ((finishedPayload cs plaintext).mapError .err)
      let ks ← get
      let ok ← fromResult ((ks.verifyClientFinished P ⟨verify, some snapshot⟩).mapError
        fun _ => .err .cryptoError)
      if ok then do
        orCryptoError (KeySchedule.initializeMasterSecret P)
        KeySchedule.updateTranscript inner
      else throw (.err (fatal .decryptError)) : KeySchedule.M cs Unit) ks = .error e ks') :
    (∃ err, e = .err err) ∧ ks' = ks := by
  cases hpayload : finishedPayload cs plaintext with
  | error err =>
      rw [hpayload] at h
      cases h
      exact ⟨⟨err, rfl⟩, rfl⟩
  | ok payload =>
      simp only [hpayload, mapError_ok_eq, fromResult_ok_bind, get_bind_apply] at h
      cases hverify : ks.verifyClientFinished P ⟨payload.2, some snapshot⟩ with
      | error err =>
          rw [hverify] at h
          cases h
          exact ⟨⟨_, rfl⟩, rfl⟩
      | ok genuine =>
          simp only [hverify, mapError_ok_eq, fromResult_ok_bind] at h
          cases genuine with
          | false =>
              cases h
              exact ⟨⟨_, rfl⟩, rfl⟩
          | true =>
              have hmaster : orCryptoError (KeySchedule.initializeMasterSecret P) ks =
                  .ok () (applicationStage P ks) :=
                mapError_of_ok (KeySchedule.initializeMasterSecret_eq P _)
              rw [if_pos rfl, bind_of_ok hmaster] at h
              cases h

/-- A record that is refused moves the client's counter if it opened, and nothing else. -/
theorem processClientFinishedIn_error {e : Stop} (hcount : CanCount ks.clientState.state)
    (h : processClientFinishedIn P record ks = .error e ks') :
    (∃ err, e = .err err) ∧
      (AeadPasses P ks record ∧ ks' = bumpClient ks ∨ ¬AeadPasses P ks record ∧ ks' = ks) := by
  rw [processClientFinishedIn] at h
  cases hframing : checkFraming record with
  | error err =>
      rw [hframing] at h
      cases h
      refine ⟨⟨err, rfl⟩, .inr ⟨?_, rfl⟩⟩
      rintro ⟨_, _, hok, -⟩
      rw [hframing] at hok
      cases hok
  | ok bodyLen =>
      simp only [hframing, mapError_ok_eq, fromResult_ok_bind, get_bind_apply] at h
      split at h
      · rename_i hlarge
        cases h
        refine ⟨⟨_, rfl⟩, .inr ⟨?_, rfl⟩⟩
        rintro ⟨_, _, hok, hsmall, -⟩
        cases hframing.symm.trans hok
        omega
      rename_i hsmall
      have hopen := @openRecord_eq _ P ks record
      cases hplain : openedWith P ks.clientState.state record with
      | none =>
          rw [hplain] at hopen
          rw [bind_of_error hopen] at h
          cases h
          refine ⟨⟨_, rfl⟩, .inr ⟨?_, rfl⟩⟩
          rintro ⟨_, _, -, -, hsome⟩
          rw [hplain] at hsome
          cases hsome
      | some plaintext =>
          simp only [hplain, if_pos hcount] at hopen
          rw [bind_of_ok hopen] at h
          have hpasses : AeadPasses P ks record := ⟨bodyLen, plaintext, hframing, by omega, hplain⟩
          obtain ⟨herr, hstate⟩ := checkFinished_error h
          exact ⟨herr, .inl ⟨hpasses, hstate⟩⟩

/-- While the counter has a next value, a client Finished is accepted exactly when it is
genuine. The application keys then come from the transcript without it and it is absorbed
behind them; a refused record moves the counter if it opened, and nothing else. -/
theorem clientFinished_exact {secret : GenericArray cs.hashLen}
    (hsecret : ks.clientState.state.trafficSecret = .initialized secret)
    (hcount : CanCount ks.clientState.state) (record : Bytes) :
    ((∃ ks', processClientFinishedIn P record ks = .ok () ks') ↔ Genuine P ks secret record) ∧
    (∀ ks', processClientFinishedIn P record ks = .ok () ks' →
      ks' = absorb (applicationStage P (bumpClient ks)) ([0x14] ++ bigEndian 3 cs.hashLen ++
        (finishedMac P secret ks.serverState.transcriptHash).val)) ∧
    (∀ e ks', processClientFinishedIn P record ks = .error e ks' → (∃ err, e = .err err) ∧
      (AeadPasses P ks record ∧ ks' = bumpClient ks ∨ ¬AeadPasses P ks record ∧ ks' = ks)) := by
  refine ⟨⟨?_, ?_⟩, ?_, fun e ks' => processClientFinishedIn_error hcount⟩
  · rintro ⟨ks', h⟩
    obtain ⟨f, -⟩ := processClientFinishedIn_eq_ok.mp h
    exact genuine_of_clientFinished hsecret f
  · intro hgenuine
    obtain ⟨f⟩ := clientFinished_of_genuine hsecret hcount hgenuine
    exact ⟨_, processClientFinishedIn_eq_ok.mpr ⟨f, rfl⟩⟩
  · intro ks' h
    obtain ⟨f, rfl⟩ := processClientFinishedIn_eq_ok.mp h
    have hprk : f.prk = secret := Secret.initialized.inj (f.secret.symm.trans hsecret)
    rw [ClientFinished.schedule, finishedMessage, sized, f.verified, hprk,
      (finishedMac P secret ks.serverState.transcriptHash).property, List.append_assoc]
    rfl

/-- A schedule in its handshake that has read `counter` records, and the Finished its client
sends under it. -/
def handshakeAt (counter : UInt64) : KeySchedule .aes128GcmSha256 :=
  { KeySchedule.new with
    clientState := ⟨⟨.initialized (.zeros _), counter, .zeros _, .zeros _⟩, .uninitialized⟩ }

def finishedAt (counter : UInt64) : Bytes :=
  let P := Primitives.checksumming .aes128GcmSha256
  ((sealedWith P (handshakeAt counter).clientState.state
    (finishedMessage (finishedMac P (.zeros _) [])) .handshake).map protectedRecord).getD []

theorem finishedAt_genuine :
    ∀ counter ∈ [(0 : UInt64), 0xFFFFFFFFFFFFFFFF], Genuine (Primitives.checksumming .aes128GcmSha256)
      (handshakeAt counter) (.zeros _) (finishedAt counter) := by
  intro counter hcounter
  fin_cases hcounter
  · exact ⟨by decide +kernel, by decide +kernel, by decide +kernel, by decide +kernel, 0, by decide +kernel⟩
  · exact ⟨by decide +kernel, by decide +kernel, by decide +kernel, by decide +kernel, 0, by decide +kernel⟩

/-- At the last value of the counter a genuine Finished is not accepted. -/
theorem lastRecord_not_accepted :
    let P := Primitives.checksumming .aes128GcmSha256
    (handshakeAt 0xFFFFFFFFFFFFFFFF).clientState.state.trafficSecret = .initialized (.zeros _) ∧
    Genuine P (handshakeAt 0xFFFFFFFFFFFFFFFF) (.zeros _) (finishedAt 0xFFFFFFFFFFFFFFFF) ∧
    ¬∃ ks', processClientFinishedIn P (finishedAt 0xFFFFFFFFFFFFFFFF)
      (handshakeAt 0xFFFFFFFFFFFFFFFF) = .ok () ks' := by
  intro P
  refine ⟨rfl, finishedAt_genuine _ (by simp), ?_⟩
  rintro ⟨ks', h⟩
  obtain ⟨f, -⟩ := processClientFinishedIn_eq_ok.mp h
  exact absurd f.counts (by decide)

theorem firstRecord_accepted :
    let P := Primitives.checksumming .aes128GcmSha256
    ∃ ks', processClientFinishedIn P (finishedAt 0) (handshakeAt 0) = .ok () ks' :=
  (clientFinished_exact rfl (by decide) (finishedAt 0)).1.mpr (finishedAt_genuine _ (by simp))

end GatoPskTls.Server.Session
