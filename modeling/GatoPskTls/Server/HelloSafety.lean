import GatoPskTls.Server.FlightSafety

/-!
# Server: a ClientHello is within bounds

`process_client_hello` from the parser to the flight. The indices it uses come from the peer; each
was checked when the message was parsed.
-/
namespace GatoPskTls.Server.Checked

open GatoPskTls Stateful BigEndian Splice Tracing Traced Demands Noted
open GatoPskTls.Checked (WellPaired parse_bounded erase_parse)

variable {cs : TlsCipherSuite} {limit : Nat} {α : Type}

/-- From such a session everything asked is met, and the call returns. -/
abbrev Serves (limit : Nat) (pre : Session cs → Prop) (x : SessionM cs Demand α)
    (post : α → Session cs → Prop) : Prop := Safe limit pre x post fun e _ => Returned e

/-- The session id of ClientHello1 is as long as its field says. -/
def KeepsId (s : Session cs) : Prop := s.hrrState.ch1SessionIdLen.toNat ≤ 32

section Read

variable {msg : Bytes} {config : TlsServerConfig} {hrr : HrrState} {hello : ClientHelloRef}

theorem findExtension_mem {pick : ClientHelloExtension → Option α} {a : α}
    (h : findExtension hello pick = some a) : ∃ ext ∈ hello.extensions, pick ext = some a :=
  List.exists_of_findSome?_eq_some h

theorem preSharedKey_paired (hello : ClientHelloRef) (h : ∀ ext ∈ hello.extensions, WellPaired ext)
    {psk : PreSharedKeyClientHello} (hpsk : preSharedKey hello = some psk) :
    GatoPskTls.Checked.Paired 4 psk := by
  obtain ⟨ext, hmem, hpick⟩ := findExtension_mem hpsk
  cases ext with
  | preSharedKey psk' =>
      cases hpick
      exact h _ hmem _ rfl
  | _ => cases hpick

theorem identityDemands_met (h : ∀ ext ∈ hello.extensions, WellPaired ext) :
    AllMet limit (identityDemands hello config) := by
  rw [identityDemands]
  cases hpsk : preSharedKey hello with
  | none => exact allMet_nil limit
  | some psk =>
      have hpaired := preSharedKey_paired hello h hpsk
      cases hidx : psk.identities.findIdx? (· == config.pskIdentity) with
      | none => simp only [hidx, allMet_nil]
      | some idx =>
          obtain ⟨hlt, -⟩ := List.findIdx?_eq_some_iff_getElem.mp hidx
          have hlen := hpaired.binders_length
          have hle := hpaired.binders_le
          simp only [hidx, allMet_cons, allMet_nil, and_true, Demand.Met]
          omega

/-- Our identity has a binder. -/
theorem locateOurIdentity_returned (h : ∀ ext ∈ hello.extensions, WellPaired ext) {e : Stop}
    (he : locateOurIdentity hello config = .error e) : Returned e := by
  rw [locateOurIdentity] at he
  cases hpsk : preSharedKey hello with
  | none =>
      rw [hpsk] at he
      cases he
      trivial
  | some psk =>
      have hlen := (preSharedKey_paired hello h hpsk).binders_length
      rw [hpsk] at he
      cases hidx : psk.identities.findIdx? (· == config.pskIdentity) with
      | none =>
          simp only [hidx] at he
          cases he
          trivial
      | some idx =>
          obtain ⟨hlt, -⟩ := List.findIdx?_eq_some_iff_getElem.mp hidx
          have hsome : psk.binders[idx]? = some psk.binders[idx] := List.getElem?_eq_getElem (by omega)
          simp only [hidx, hsome] at he
          cases he

/-- What is known of a ClientHello that was parsed. -/
structure Known (msg : Bytes) (offer : Offer) : Prop where
  sessionId : offer.hello.legacySessionId.length ≤ 32
  offset : offer.hello.bindersStartOffset ≤ msg.length

theorem examine_returned {e : Stop}
    (h : ∀ hello, parseClientHello msg = .ok hello → ∀ ext ∈ hello.extensions, WellPaired ext)
    (he : Server.examine msg config hrr = .error e) : Returned e := by
  have hstep : ∀ {β γ : Type} {r : Except TlsError β} {f : β → Except Stop γ},
      (∀ b, r = .ok b → f b = .error e → Returned e) → (r.mapError Stop.err >>= f) = .error e →
        Returned e := by
    intro β γ r f hf hr
    cases r with
    | ok b => exact hf b rfl hr
    | error e' =>
        cases hr
        trivial
  refine hstep (fun hello hparse => ?_) he
  refine hstep fun _ _ => hstep fun _ _ => hstep fun _ _ => hstep fun decision _ => ?_
  intro hlocate
  cases hlocated : locateOurIdentity hello config with
  | ok located =>
      rw [hlocated] at hlocate
      cases hlocate
  | error e' =>
      rw [hlocated] at hlocate
      cases hlocate
      exact locateOurIdentity_returned (h hello hparse) hlocated

theorem examine_serves (hlimit : 2 ^ 32 ≤ limit) (hmsg : 2 * msg.length < limit) :
    Serves limit KeepsId (Noted.examine msg config : SessionM cs Demand Offer)
      fun offer _ => Known msg offer := by
  have hparse := @parse_bounded limit CLIENT_HELLO_MAX_EXTENSIONS hlimit msg hmsg
  have hends := hparse.ends (s := ParseBuffer.new msg) rfl
  rw [erase_parse] at hends
  have hhello : ∀ hello, parseClientHello msg = .ok hello →
      hello.legacySessionId.length ≤ 32 ∧ ∀ ext ∈ hello.extensions, WellPaired ext := by
    intro hello h
    rw [parseClientHello] at h
    cases hrun : ClientHelloRef.parse CLIENT_HELLO_MAX_EXTENSIONS (ParseBuffer.new msg) with
    | error e b =>
        rw [hrun] at h
        cases h
    | ok hello' b =>
        have hpost := (hends.ok hrun).2
        rw [hrun] at h
        simp only at h
        split at h
        · cases h
        · cases h
          exact hpost
  refine .asking fun s hs => ⟨allMet_append.mpr ⟨hparse.met rfl, ?_⟩, ?_⟩
  · have herase : (GatoPskTls.Checked.parse CLIENT_HELLO_MAX_EXTENSIONS (ParseBuffer.new msg)).1 =
        ClientHelloRef.parse CLIENT_HELLO_MAX_EXTENSIONS (ParseBuffer.new msg) :=
      congrFun (erase_parse CLIENT_HELLO_MAX_EXTENSIONS) _
    rw [herase]
    cases hrun : ClientHelloRef.parse CLIENT_HELLO_MAX_EXTENSIONS (ParseBuffer.new msg) with
    | error e b => exact allMet_nil limit
    | ok hello b =>
        refine allMet_append.mpr ⟨?_, identityDemands_met (hends.ok hrun).2.2⟩
        rw [ch2Demands]
        split
        · simp only [allMet_cons, allMet_nil, and_true, Demand.Met]
          exact ⟨Nat.zero_le _, hs⟩
        · exact allMet_nil limit
  · rw [get_bind_apply]
    cases hexamine : Server.examine msg config s.hrrState with
    | ok offer =>
        have hparsed := (examine_eq_ok.mp hexamine).1
        exact ⟨(hhello _ hparsed).1, parseClientHello_offset_le hparsed⟩
    | error e => exact examine_returned (fun hello h => (hhello hello h).2) hexamine

end Read

theorem writing_serves {out : Bytes} {x : DeskM cs Demand Unit}
    (h : Fills limit (Has (fun _ => True) (Inside out.length)) x
      fun _ d => Inside out.length d.writer) {pre : Session cs → Prop} :
    Serves limit pre (writing .demands out x) fun _ _ => True := by
  refine writing_triple .demands fun s l d hd => ?_
  obtain ⟨rfl, hl, -⟩ := hd
  refine (h l _ ⟨hl, trivial, rfl, Nat.zero_le _⟩).mono (fun _ d hd => ?_) fun _ _ hd => hd
  obtain ⟨hl', hcap, hpos⟩ := hd
  have hslice : AllMet limit [.slice 0 d.writer.pos d.writer.buf.length] :=
    allMet_cons.mpr ⟨⟨Nat.zero_le _, by omega⟩, allMet_nil limit⟩
  exact ⟨allMet_append.mpr ⟨hl', hslice⟩, trivial⟩

section Answer

variable {msg out : Bytes} {offer : Offer}

theorem prepareBinderKey_serves (P : Primitives cs) (config : TlsServerConfig)
    {pre : Session cs → Prop} :
    Serves limit pre (prepareBinderKey P config) fun _ _ => True := by
  refine .get_bind fun s _ => ?_
  split
  · exact .bare fun _ _ => trivial
  · refine .onPart fun s _ => .asking fun ks _ => ⟨earlyDemands_met, ?_⟩
    rw [Session.orCryptoError, mapError_of_ok (KeySchedule.initializeEarlySecret_eq P _ ks)]
    trivial

theorem checkBinder_serves (P : Primitives cs) (hoffer : Known msg offer) {pre : Session cs → Prop} :
    Serves limit pre (checkBinder P msg offer) fun _ _ => True := by
  refine .asking fun s _ => ⟨allMet_cons.mpr ⟨⟨Nat.zero_le _, hoffer.offset⟩, finishedDemands_met⟩, ?_⟩
  have hoffset := hoffer.offset
  simp only [Session.checkBinder, get_bind_apply]
  rw [if_neg (by omega)]
  cases s.schedule.verifyPskBinder P
      (s.binderBase ++ msg.take offer.hello.bindersStartOffset) offer.receivedBinder with
  | error e => trivial
  | ok binderOk =>
      cases binderOk with
      | true => trivial
      | false => trivial

theorem snapshotCh1_serves (hoffer : Known msg offer) {pre : Session cs → Prop} :
    Serves limit pre (snapshotCh1 offer.hello) fun _ _ => True := by
  have hid := hoffer.sessionId
  refine .asking fun s _ => ⟨?_, ?_⟩
  · simp only [allMet_cons, allMet_nil, and_true, Demand.Met]
    omega
  · simp only [Session.snapshotCh1, get_bind_apply]
    rw [dif_pos hid]
    trivial

variable (hlimit : 2 ^ 32 ≤ limit) (hout : 2 * out.length < limit)

include hlimit hout

theorem retry_serves (P : Primitives cs) (hoffer : Known msg offer) (group : NamedGroup)
    {pre : Session cs → Prop} : Serves limit pre (retry P msg offer group out) fun _ _ => True :=
  (writing_serves (writeHelloRetryRequestRecord_fills hlimit hout P hoffer.sessionId group msg)).bind
    fun _ => (snapshotCh1_serves hoffer).bind fun _ => .bare fun _ _ => trivial

theorem firstFlight_serves (P : Primitives cs) (X : X25519) (config : TlsServerConfig)
    (hoffer : Known msg offer) (mode : KexMode) {pre : Session cs → Prop} :
    Serves limit pre (firstFlight .demands P X msg config offer mode out) fun _ _ => True := by
  have habsorb : Serves limit pre (bare (Session.onSchedule (KeySchedule.updateTranscript msg)))
      fun _ _ => True := .bare fun _ _ => trivial
  exact habsorb.bind fun _ =>
    (writing_serves (writeFlight_fills hlimit hout P X config hoffer.sessionId mode)).bind fun _ =>
      .bare fun _ _ => trivial

theorem processClientHello_serves (P : Primitives cs) (X : X25519) (config : TlsServerConfig)
    (hmsg : 2 * msg.length < limit) :
    Serves limit KeepsId (processClientHello .demands P X msg config out) fun _ _ => True := by
  refine (asked_safe (examine_serves hlimit hmsg)).bind fun offer => ?_
  intro l s hs
  have hoffer := hs.2
  have hanswer : Serves limit (fun _ => True) (answer .demands P X msg config offer out)
      fun _ _ => True := by
    rw [answer]
    cases offer.decision with
    | retry group => exact asked_safe (retry_serves hlimit hout P hoffer group)
    | use mode => exact firstFlight_serves hlimit hout P X config hoffer mode
  have hprepare : Serves limit (fun _ : Session cs => True) (prepareBinderKey P config)
      fun _ _ => True := prepareBinderKey_serves P config
  exact ((asked_safe hprepare).bind fun _ =>
    (asked_safe (checkBinder_serves P hoffer)).bind fun _ => hanswer) l s ⟨hs.1, trivial⟩

end Answer

end GatoPskTls.Server.Checked
