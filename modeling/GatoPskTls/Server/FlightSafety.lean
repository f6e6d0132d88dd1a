import GatoPskTls.Server.Noted

/-!
# Server: a flight is within bounds

The labels' length fields, the nonce, and the slices between writer and AEAD. A record is sealed
where its message was written, and the messages of a flight are short.
-/
namespace GatoPskTls.Server.Checked

open GatoPskTls Stateful BigEndian Splice Tracing Traced Demands Noted
open GatoPskTls.Checked (Window Grows nonceDemands nonceDemands_met)

variable {cs : TlsCipherSuite} {limit : Nat} {α σ : Type}

/-- Where demands are noted, a computation that only asks is noted as it is. -/
theorem asked_safe {ε : Type} {pre : σ → Prop} {x : Traced Demand ε σ α} {post : α → σ → Prop}
    {fail : ε → σ → Prop} (h : Safe limit pre x post fail) :
    Safe limit pre ((Notes.demands : Notes cs Demand).asked x) post fail := h

theorem labelDemands_met {n contextLen : Nat} (hn : n < 2 ^ 16) (hcontext : contextLen < 2 ^ 8)
    (label : Label) : AllMet limit (labelDemands n label contextLen) := by
  have hlabel : label.bytes.length ≤ 12 := by cases label <;> decide
  simp only [labelDemands, allMet_cons, allMet_nil, and_true, Demand.Met]
  omega

theorem deriveDemands_met (label : Label) : AllMet limit (deriveDemands cs label) :=
  labelDemands_met (by cases cs <;> decide) (by cases cs <;> decide) label

theorem finishedDemands_met : AllMet limit (finishedDemands cs) :=
  labelDemands_met (by cases cs <;> decide) (by decide) .finished

theorem trafficDemands_met (label : Label) : AllMet limit (trafficDemands cs label) :=
  allMet_append.mpr ⟨deriveDemands_met label, allMet_append.mpr
    ⟨labelDemands_met (by cases cs <;> decide) (by decide) .key,
      labelDemands_met (by cases cs <;> decide) (by decide) .iv⟩⟩

theorem earlyDemands_met : AllMet limit (earlyDemands cs) :=
  allMet_append.mpr ⟨deriveDemands_met _, deriveDemands_met _⟩

theorem advanceDemands_met (clientLabel serverLabel : Label) :
    AllMet limit (advanceDemands cs clientLabel serverLabel) :=
  allMet_append.mpr ⟨trafficDemands_met _, allMet_append.mpr
    ⟨trafficDemands_met _, deriveDemands_met _⟩⟩

section Installing

variable (P : Primitives cs) {pre : KeySchedule cs → Prop}

theorem installing_safe (ikm : Bytes) (clientLabel serverLabel : Label) {x : KeySchedule.M cs Unit}
    {post : KeySchedule cs → Prop}
    (h : ∀ ks, pre ks → Ends (Session.orCryptoError x ks) (fun _ => post) fun e _ => Returned e) :
    Safe limit pre (installing .demands P ikm clientLabel serverLabel x) (fun _ => post)
      fun e _ => Returned e := by
  refine .get_bind fun ks hks => (asked_safe (.demand fun _ _ => advanceDemands_met _ _)).bind fun _ =>
    Safe.bind (.bare fun ks' hks' => h ks' (hks' ▸ hks)) fun _ => ?_
  exact Safe.demand fun _ _ => allMet_nil limit

/-- The keys are new, so the first nonce is next. -/
theorem installHandshakeKeys_safe (X : X25519) (config : TlsServerConfig) (mode : KexMode) :
    Safe limit pre (installHandshakeKeys .demands P X config mode)
      (fun _ ks => ks.serverState.state.counter.toNat = 0) fun e _ => Returned e := by
  have hkeys : ∀ ikm : Bytes, Safe limit pre
      (installing .demands P ikm .clientHandshakeTraffic .serverHandshakeTraffic
        (KeySchedule.initializeHandshakeSecret P ikm))
      (fun _ ks => ks.serverState.state.counter.toNat = 0) fun e _ => Returned e := by
    refine fun ikm => installing_safe P ikm _ _ fun ks _ => ?_
    rw [Session.orCryptoError, mapError_of_ok (KeySchedule.initializeHandshakeSecret_eq P ikm ks)]
    rfl
  cases mode with
  | pskKe => exact hkeys _
  | pskDheKe clientPub =>
      simp only [installHandshakeKeys]
      cases config.dheKeypair with
      | none => exact .bare fun _ _ => trivial
      | some dhe =>
          dsimp only
          split
          next hlen =>
            refine (asked_safe (.demand fun _ _ => ?_)).bind fun _ => ?_
            · simp [Demand.Met, hlen]
            split
            · exact .bare fun _ _ => trivial
            · exact hkeys _
          next => exact .bare fun _ _ => trivial

end Installing

section Sealing

variable {P : Primitives cs}

theorem encryptInPlace_grows (key : GenericArray cs.keyLen) (nonce : GenericArray cs.ivLen)
    (aad : Bytes) : Grows limit (encryptInPlace .demands P key nonce aad) cs.tagSize := by
  intro offset len cap hcap
  have hseal := GatoPskTls.Checked.encryptInPlace_grows P key nonce aad offset len cap hcap
  exact (asked_safe hseal).bind fun _ => Safe.demand fun _ _ => allMet_nil limit

/-- A region that was sealed keeps its size; otherwise an error is returned. -/
theorem sealRegion_safe {s : KeyScheduleState cs} {aad region : Bytes} {plaintextLen : Nat}
    (hregion : 2 * region.length < limit) (hlen : plaintextLen ≤ region.length) {pre : σ → Prop} :
    Safe limit pre (Noted.sealRegion .demands P s aad region plaintextLen)
      (fun ciphertext t => ciphertext.length = region.length ∧ pre t) fun e _ => Returned e := by
  have hgiven : ∀ {β : Type} (b : β), Safe limit pre (bare (fromResult (.ok b)))
      (fun _ => pre) fun e _ => Returned e := fun b => .bare fun _ ht => ht
  refine (hgiven s.key).bind fun key => (asked_safe (.demand fun _ _ => nonceDemands_met)).bind fun _ =>
    (hgiven (KeyScheduleState.nonce s.counter s.iv)).bind fun nonce => ?_
  have hgrows := encryptInPlace_grows (P := P) key nonce aad 0 plaintextLen region.length hregion
  refine inRegion_triple fun t l b hb => ?_
  obtain ⟨rfl, hl, ht⟩ := hb
  refine (hgrows l _ ⟨hl, rfl, rfl, rfl, by omega⟩).mono (fun _ _ h => ?_) fun _ _ h => ?_
  · exact ⟨h.1, h.2.cap_eq, ht⟩
  · exact ⟨h.1, trivial⟩

end Sealing

/-- The schedule with `keys`, and the writer with `place`. -/
def Has (keys : KeySchedule cs → Prop) (place : OutWriter → Prop) (d : Desk cs) : Prop :=
  keys d.schedule ∧ place d.writer

/-- From such a desk everything asked is met, and only errors are returned. -/
abbrev Fills (limit : Nat) (pre : Desk cs → Prop) (x : DeskM cs Demand α) (post : α → Desk cs → Prop) :
    Prop := Safe limit pre x post fun e _ => Returned e

theorem onWriter_fills {keys : KeySchedule cs → Prop} {place : OutWriter → Prop} {x : WriterM α}
    {post : α → OutWriter → Prop} (h : Safe limit place x post fun e _ => Returned e) :
    Fills limit (Has keys place) (onWriter x) fun a => Has keys (post a) :=
  .onPart fun _ hd => ((h.starting hd.2).mono (fun _ _ hpost => ⟨hd.1, hpost⟩) fun _ _ he => he)

theorem onSchedule_fills {keys : KeySchedule cs → Prop} {place : OutWriter → Prop}
    {x : ScheduleM cs Demand α} {post : α → KeySchedule cs → Prop}
    (h : Safe limit keys x post fun e _ => Returned e) :
    Fills limit (Has keys place) (onSchedule x) fun a => Has (post a) place :=
  .onPart fun _ hd => ((h.starting hd.1).mono (fun _ _ hpost => ⟨hpost, hd.2⟩) fun _ _ he => he)

/-- The next record is sealed under this counter. -/
def Counts (k : Nat) (ks : KeySchedule cs) : Prop := ks.serverState.state.counter.toNat = k

theorem incrementServerCounter_safe {k : Nat} (hk : k + 1 < 2 ^ 64) :
    Safe limit (Counts k) (bare incrementServerCounter : ScheduleM cs Demand Unit)
      (fun _ => Counts (k + 1)) fun e _ => Returned e := by
  refine .bare fun ks hks => ?_
  have hcan : CanCount ks.serverState.state := by
    rw [CanCount, hks]
    exact hk
  rw [incrementServerCounter_eq, if_pos hcan]
  exact (canCount_next hcan).trans (congrArg (· + 1) hks)

theorem closeHandshakeRecord_fills {recordStart innerStart cap k : Nat} {ciphertext : Bytes}
    (hcap : 2 * cap < limit) (hk : k + 1 < 2 ^ 64) (hstart : recordStart + 5 ≤ innerStart)
    (hfits : innerStart + ciphertext.length ≤ cap) :
    Fills limit (Has (Counts k) (At innerStart cap))
      (Noted.closeHandshakeRecord recordStart innerStart ciphertext : DeskM cs Demand Unit)
      fun _ => Has (Counts (k + 1)) (Inside cap) := by
  have hput : Safe limit (At innerStart cap) (bare (modify fun w : OutWriter =>
      ⟨splice w.buf innerStart ciphertext, innerStart + ciphertext.length⟩) : WriterM Unit)
      (fun _ => At (innerStart + ciphertext.length) cap) fun e _ => Returned e := by
    refine .bare fun w hw => ⟨rfl, ?_, hfits⟩
    have hcap_eq := hw.cap_eq
    rw [← hcap_eq]
    exact splice_length (by omega)
  refine (onWriter_fills hput).bind fun _ =>
    (onSchedule_fills (incrementServerCounter_safe hk)).bind fun _ => ?_
  have hpatch := @patch_safe limit (innerStart + ciphertext.length) cap hcap (recordStart + 3)
    (bigEndian 2 ciphertext.length) (by rw [bigEndian_length]; omega)
  exact (onWriter_fills hpatch).mono (fun _ _ hd => ⟨hd.1, hd.2.stands⟩) fun _ _ he => he

/-- A short message is sealed where it stands. -/
theorem sealHandshakeRecord_fills {P : Primitives cs} {recordStart innerStart cap k : Nat}
    {inner : Bytes} (hcap : 2 * cap < limit) (hk : k + 1 < 2 ^ 64) (hinner : inner.length ≤ 52)
    (hroom : innerStart + (inner.length + 1 + cs.tagSize) ≤ cap) (hstart : recordStart + 5 ≤ innerStart) :
    Fills limit (Has (Counts k) (At innerStart cap))
      (Noted.sealHandshakeRecord .demands P recordStart innerStart inner)
      fun _ => Has (Counts (k + 1)) (Inside cap) := by
  have htag : cs.tagSize = 16 := rfl
  refine Safe.bind (asked_safe (.demandAt fun d hd => ?_)) fun _ => ?_
  · simp only [markerDemands, hd.2.cap_eq, allMet_cons, allMet_nil, and_true, Demand.Met]
    omega
  have hpatch : Fills limit (Has (Counts k) (At innerStart cap))
      (bare (Desk.onWriter (OutWriter.patch innerStart (inner ++ [ContentType.handshake.toU8]))) :
        DeskM cs Demand Unit) fun _ => Has (Counts k) (At innerStart cap) := by
    refine .bare fun d hd => ?_
    have hcap_eq := hd.2.cap_eq
    have hfits : innerStart + (inner ++ [ContentType.handshake.toU8]).length ≤ d.writer.buf.length := by
      rw [List.length_append, List.length_singleton]
      omega
    exact ⟨hd.1, hd.2.pos_eq, (splice_length hfits).trans hcap_eq, hd.2.inside⟩
  have habsorb : Fills limit (Has (Counts k) (At innerStart cap))
      (bare (Desk.onSchedule (KeySchedule.updateTranscript inner)) : DeskM cs Demand Unit)
      fun _ => Has (Counts k) (At innerStart cap) := .bare fun _ hd => hd
  refine hpatch.bind fun _ => habsorb.bind fun _ => .get_bind fun d hd => ?_
  have hbuf := hd.2.cap_eq
  have hregion : ((d.writer.buf.drop innerStart).take (inner.length + 1 + cs.tagSize)).length =
      inner.length + 1 + cs.tagSize := by
    rw [List.length_take, List.length_drop]
    omega
  rw [if_neg (by omega)]
  refine Safe.bind (asked_safe (.demand fun _ _ => ?_)) fun _ => ?_
  · exact allMet_cons.mpr ⟨⟨by omega, by omega⟩, allMet_nil limit⟩
  refine (sealRegion_safe (by rw [hregion]; omega) (by rw [hregion]; omega)).bind fun ciphertext =>
    .of_fact fun hlen => ?_
  rw [hregion] at hlen
  exact (asked_safe (closeHandshakeRecord_fills hcap hk hstart (by omega))).weaken
    fun _ hd' => hd' ▸ hd

/-- Whatever the slice, it asks nothing the slice does not have, and writes a short message. -/
structure EncodesShort (limit : Nat) (enc : TracedEncoder cs) : Prop where
  met : ∀ room, AllMet limit (enc.asks room)
  fits : ∀ room ks inner, enc.encode room ks = .ok inner → inner.length ≤ room ∧ inner.length ≤ 52

theorem indices_met {n len : Nat} (h : n ≤ len) :
    AllMet limit ((List.range n).map fun i => .index i len) := by
  intro d hd
  obtain ⟨i, hi, rfl⟩ := List.mem_map.mp hd
  exact Nat.lt_of_lt_of_le (List.mem_range.mp hi) h

theorem encryptedExtensions_short (hlimit : 2 ^ 32 ≤ limit) :
    EncodesShort limit (encryptedExtensions : TracedEncoder cs) where
  met := by
    intro room
    refine allMet_cons.mpr ⟨Nat.lt_of_lt_of_le (by decide) hlimit, ?_⟩
    split
    next => exact allMet_nil limit
    next hroom =>
      simp only [HANDSHAKE_HEADER_LEN] at hroom
      exact indices_met (by omega)
  fits := by
    intro room ks inner h
    change encodeEncryptedExtensions room ks = .ok inner at h
    obtain ⟨hroom, rfl⟩ := encodeEncryptedExtensions_eq_ok.mp h
    exact ⟨hroom, by decide⟩

theorem serverFinished_short (P : Primitives cs) (hlimit : 2 ^ 32 ≤ limit) :
    EncodesShort limit (serverFinished P) where
  met := by
    have hhash : cs.hashLen ≤ 48 := by cases cs <;> decide
    intro room
    refine allMet_cons.mpr ⟨?_, ?_⟩
    · simp only [Demand.Met, HANDSHAKE_HEADER_LEN]
      omega
    split
    next => exact allMet_nil limit
    next hroom =>
      simp only [HANDSHAKE_HEADER_LEN] at hroom
      refine allMet_append.mpr ⟨finishedDemands_met, allMet_append.mpr ⟨indices_met (by omega), ?_⟩⟩
      simp only [allMet_cons, allMet_nil, and_true, Demand.Met, HANDSHAKE_HEADER_LEN]
      omega
  fits := by
    intro room ks inner h
    refine ⟨encodeServerFinished_bounded P room ks inner h, ?_⟩
    have hhash : cs.hashLen ≤ 48 := by cases cs <;> decide
    simp only [serverFinished, encodeServerFinished] at h
    split at h
    · cases h
    · cases hfinished : ks.createServerFinished P with
      | error e =>
          rw [hfinished] at h
          cases h
      | ok finished =>
          rw [hfinished] at h
          cases h
          simp only [List.length_append, List.length_cons, List.length_nil, finished.verify.property]
          omega

theorem writeEncryptedHandshakeRecord_fills {P : Primitives cs} {innerEncoder : TracedEncoder cs}
    {cap k : Nat} (hlimit : 2 ^ 32 ≤ limit) (hcap : 2 * cap < limit) (hk : k + 1 < 2 ^ 64)
    (henc : EncodesShort limit innerEncoder) :
    Fills limit (Has (Counts k) (Inside cap)) (Noted.writeEncryptedHandshakeRecord .demands P innerEncoder)
      fun _ => Has (Counts (k + 1)) (Inside cap) := by
  have htag : cs.tagSize = 16 := rfl
  refine .get_bind fun d₀ hd₀ => ?_
  have happend := @onWriter_fills cs limit Unit (Counts k) _ _ _
    (@append_puts limit cap hlimit hcap [ContentType.applicationData.toU8, 3, 3, 0, 0]
      (by decide) d₀.writer.pos)
  refine (asked_safe (happend.starting ⟨hd₀.1, hd₀.2.at_pos⟩)).bind fun _ => ?_
  refine .get_bind fun d hd => ?_
  have hpos : d.writer.pos = d₀.writer.pos + 5 := hd.2.pos_eq
  have hbuf := hd.2.cap_eq
  have hinside := hd.2.inside
  refine Safe.bind (asked_safe (.demand fun _ _ => ?_)) fun _ => ?_
  · simp only [allMet_cons, allMet_nil, and_true, Demand.Met]
    omega
  split
  · exact .bare fun _ _ => trivial
  next hroom =>
    refine Safe.bind (asked_safe (.demand fun _ _ => allMet_append.mpr ⟨?_, henc.met _⟩)) fun _ => ?_
    · simp only [roomDemands, allMet_cons, allMet_nil, and_true, Demand.Met]
      omega
    have hinner : Fills limit (· = d) (bare (fromResult ((innerEncoder.encode
        (d.writer.buf.length - d.writer.pos - 1 - cs.tagSize) d.schedule).mapError .err)))
        fun inner d' => (inner.length ≤ d.writer.buf.length - d.writer.pos - 1 - cs.tagSize ∧
          inner.length ≤ 52) ∧ d' = d := by
      refine .bare fun d' hd' => ?_
      cases hencode : innerEncoder.encode (d.writer.buf.length - d.writer.pos - 1 - cs.tagSize)
          d.schedule with
      | ok inner => exact ⟨henc.fits _ _ _ hencode, hd'⟩
      | error e => trivial
    refine hinner.bind fun inner => .of_fact fun hshort => ?_
    refine (sealHandshakeRecord_fills hcap hk hshort.2 (by omega) (by omega)).weaken fun d' hd' => ?_
    subst hd'
    exact ⟨hd.1, rfl, hbuf, by omega⟩

section Flight

variable {cap : Nat} (hlimit : 2 ^ 32 ≤ limit) (hcap : 2 * cap < limit) {keys : KeySchedule cs → Prop}

theorem sinceDemands_met {start : Nat} {d : Desk cs} (hstart : start ≤ d.writer.pos)
    (hd : Inside cap d.writer) : AllMet limit (sinceDemands start d) := by
  have hcap_eq := hd.cap_eq
  have hpos := hd.pos_le
  simp only [sinceDemands, allMet_cons, allMet_nil, and_true, Demand.Met]
  omega

include hlimit hcap

theorem writeHelloRetryRequestRecord_fills (P : Primitives cs) {legacySessionIdEcho : Bytes}
    (h : legacySessionIdEcho.length ≤ 32) (selectedGroup : NamedGroup) (ch1HandshakeMessage : Bytes) :
    Fills limit (Has keys (Inside cap))
      (Noted.writeHelloRetryRequestRecord P legacySessionIdEcho selectedGroup ch1HandshakeMessage)
      fun _ d => Inside cap d.writer := by
  intro l d hd
  have hemit := @onWriter_fills cs limit Nat keys _ _ _
    (@emitHelloRetryRequest_safe limit cap hlimit hcap legacySessionIdEcho h selectedGroup d.writer.pos)
  have hhash : cs.hashLen < 2 ^ 16 := by cases cs <;> decide
  have hrewrite : ∀ start, Fills limit
      (Has keys fun w => start ≤ w.pos ∧ Inside cap w)
      (Noted.rewriteTranscript P ch1HandshakeMessage start) fun _ d => Inside cap d.writer :=
    fun start => .asking fun d hd =>
      ⟨allMet_cons.mpr ⟨hhash, sinceDemands_met hd.2.1 hd.2.2⟩, hd.2.2⟩
  exact (hemit.bind hrewrite) l d ⟨hd.1, hd.2.1, hd.2.2.at_pos⟩

theorem writeServerHelloRecord_fills (config : TlsServerConfig) {legacySessionIdEcho : Bytes}
    (h : legacySessionIdEcho.length ≤ 32) (selectedIdx : Nat) (mode : KexMode) :
    Fills limit (Has keys (Inside cap))
      (Noted.writeServerHelloRecord config legacySessionIdEcho selectedIdx mode)
      fun _ => Has (fun _ => True) (Inside cap) := by
  intro l d hd
  have hemit := @onWriter_fills cs limit Nat keys _ _ _
    (@emitServerHello_safe limit cap hlimit hcap config legacySessionIdEcho h selectedIdx mode
      d.writer.pos)
  have habsorb : ∀ start, Fills limit (Has keys fun w => start ≤ w.pos ∧ Inside cap w)
      (Noted.absorbSince start) fun _ => Has (fun _ => True) (Inside cap) :=
    fun start => .asking fun d hd => ⟨sinceDemands_met hd.2.1 hd.2.2, trivial, hd.2.2⟩
  exact (hemit.bind habsorb) l d ⟨hd.1, hd.2.1, hd.2.2.at_pos⟩

theorem writeFlight_fills (P : Primitives cs) (X : X25519) (config : TlsServerConfig) {offer : Offer}
    (h : offer.hello.legacySessionId.length ≤ 32) (mode : KexMode) :
    Fills limit (Has keys (Inside cap)) (writeFlight .demands P X config offer mode)
      fun _ d => Inside cap d.writer := by
  refine (asked_safe (writeServerHelloRecord_fills hlimit hcap config h offer.selectedIdx mode)).bind
    fun _ => ?_
  refine (onSchedule_fills (installHandshakeKeys_safe P X config mode)).bind fun _ => ?_
  refine (writeEncryptedHandshakeRecord_fills hlimit hcap (by decide)
    (encryptedExtensions_short hlimit)).bind fun _ => ?_
  exact (writeEncryptedHandshakeRecord_fills hlimit hcap (by decide)
    (serverFinished_short P hlimit)).mono (fun _ _ hd => hd.2) fun _ _ he => he

end Flight

end GatoPskTls.Server.Checked
