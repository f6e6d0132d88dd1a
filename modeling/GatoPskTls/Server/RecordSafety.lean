import GatoPskTls.Server.Decrypt
import GatoPskTls.Server.FlightSafety

/-!
# Server: protected records are within bounds

The operations on single records. The length of a record is its own; the room it is opened or
sealed in is the caller's.
-/
namespace GatoPskTls.Server.Checked

open GatoPskTls Stateful BigEndian Splice Tracing Traced Demands Noted
open GatoPskTls.Checked (Bounded nonceDemands nonceDemands_met readU8_bounded readNumber_bounded
  fill_bounded)

variable {cs : TlsCipherSuite} {limit : Nat}

theorem framingDemands_met (hlimit : 2 ^ 32 ≤ limit) (record : Bytes) :
    AllMet limit (framingDemands record) := by
  have hbody : fromBigEndian ((record.drop 3).take 2) < 256 ^ 2 :=
    (fromBigEndian_lt _).trans_le (Nat.pow_le_pow_right (by decide) (List.length_take_le _ _))
  rw [framingDemands]
  split
  next => exact allMet_nil limit
  next hlen =>
    simp only [RECORD_HEADER_LEN] at hlen ⊢
    refine allMet_cons.mpr ⟨show 0 < record.length by omega, ?_⟩
    split
    next => exact allMet_nil limit
    next =>
      simp only [allMet_cons, allMet_nil, and_true, Demand.Met]
      omega

/-- What the framing checks leave. -/
structure Framed (record : Bytes) (bodyLen : Nat) : Prop where
  header : RECORD_HEADER_LEN ≤ record.length
  body : bodyLen = record.length - RECORD_HEADER_LEN

theorem Framed.of_checkFraming {record : Bytes} {bodyLen : Nat}
    (h : Session.checkFraming record = .ok bodyLen) : Framed record bodyLen := by
  obtain ⟨hheader, -, -, hbody⟩ := Session.checkFraming_eq_ok.mp h
  exact ⟨hheader, by rw [hbody, List.length_drop]⟩

/-- The next record of the client can be counted. -/
def Reads (ks : KeySchedule cs) : Prop := CanCount ks.clientState.state

/-- The next record of the server can be counted. -/
def Sends (ks : KeySchedule cs) : Prop := CanCount ks.serverState.state

section Opening

variable {record : Bytes} {bodyLen room : Nat}

theorem openDemands_met (P : Primitives cs) (s : KeyScheduleState cs)
    (hrecord : 2 * record.length < limit) (hframed : Framed record bodyLen) (hroom : bodyLen ≤ room) :
    AllMet limit (openDemands P s record bodyLen room) := by
  obtain ⟨hheader, hbody⟩ := hframed
  have hlen : (record.drop RECORD_HEADER_LEN).length = bodyLen := by rw [List.length_drop, hbody]
  refine allMet_append.mpr ⟨?_, allMet_append.mpr ⟨nonceDemands_met, ?_⟩⟩
  · simp only [allMet_cons, allMet_nil, and_true, Demand.Met]
    omega
  · have hsafe := @GatoPskTls.Checked.decryptInPlace_safe limit cs P s.key
      (KeyScheduleState.nonce s.counter s.iv) (record.take RECORD_HEADER_LEN) 0 bodyLen bodyLen
      (by omega)
    exact hsafe.met ⟨rfl, rfl, hlen, by omega⟩

theorem openRecord_safe (P : Primitives cs) (hrecord : 2 * record.length < limit)
    (hframed : Framed record bodyLen) (hroom : bodyLen ≤ room) :
    Safe limit Reads (openRecord P record bodyLen room) (fun plaintext _ => plaintext.length ≤ bodyLen)
      fun e _ => Returned e := by
  refine Safe.bind (.demandAt fun ks _ => openDemands_met P _ hrecord hframed hroom) fun _ => ?_
  have hopen : Safe limit Reads
      (bare (Session.openRecord P record (record.drop RECORD_HEADER_LEN)) : ScheduleM cs Demand Bytes)
      (fun plaintext _ => plaintext.length ≤ bodyLen) fun e _ => Returned e := by
    refine .bare fun ks hks => ?_
    rw [Session.openRecord_eq]
    cases hopened : Session.openedWith P ks.clientState.state record with
    | none => trivial
    | some plaintext =>
        have hlen := P.aeadOpen_length hopened
        have hbody := hframed.body
        rw [List.length_drop] at hlen
        simp only [if_pos (show CanCount ks.clientState.state from hks)]
        exact show plaintext.length ≤ bodyLen by omega
  refine hopen.bind fun plaintext => Safe.bind (.demand fun _ hlen => ?_) fun _ =>
    .bare fun _ hlen => hlen
  exact allMet_cons.mpr ⟨⟨Nat.zero_le _, hlen.trans hroom⟩, allMet_nil limit⟩

end Opening

theorem stripDemands_met {plaintext : Bytes} {room : Nat} (h : plaintext.length ≤ room) :
    AllMet limit (stripDemands plaintext room) := by
  rw [stripDemands]
  cases hend : Session.padEnd plaintext with
  | none => exact allMet_nil limit
  | some i =>
      have hlt := Opening.padEnd_lt hend
      simp only [allMet_cons, allMet_nil, and_true, Demand.Met]
      omega

theorem parseClientFinished_bounded (hlimit : 2 ^ 32 ≤ limit) :
    Bounded limit (parseClientFinished cs) fun _ => True := by
  have hhash : cs.hashLen ≤ 48 := by cases cs <;> decide
  refine readU8_bounded.mapError.bind fun msgType _ => ?_
  split
  · exact .throw _
  refine (readNumber_bounded (by omega)).mapError.bind fun bodyLen _ => ?_
  split
  · exact .throw _
  refine (fill_bounded (by omega)).mapError.bind fun verify _ => .get_bind fun b _ => ?_
  split
  · exact .throw _
  · exact .pure trivial

theorem payloadDemands_met (hlimit : 2 ^ 32 ≤ limit) {plaintext : Bytes}
    (h : 2 * plaintext.length < limit) : AllMet limit (payloadDemands cs plaintext) := by
  refine allMet_append.mpr ⟨stripDemands_met le_rfl, ?_⟩
  cases hstrip : Session.stripPadding plaintext with
  | error e => exact allMet_nil limit
  | ok payload =>
      have hlen := (Opening.stripPadding_take hstrip).1
      exact (parseClientFinished_bounded hlimit payload.2 (by omega)).met rfl

/-- The framing checks return. -/
theorem checkFraming_safe {record : Bytes} {pre : KeySchedule cs → Prop} :
    Safe limit pre (bare (fromResult ((Session.checkFraming record).mapError .err)) : ScheduleM cs Demand Nat)
      (fun bodyLen ks => Framed record bodyLen ∧ pre ks) fun e _ => Returned e := by
  refine .bare fun ks hks => ?_
  cases hframing : Session.checkFraming record with
  | error e => trivial
  | ok bodyLen => exact ⟨.of_checkFraming hframing, hks⟩

theorem processClientFinishedIn_safe (P : Primitives cs) {record : Bytes} (hlimit : 2 ^ 32 ≤ limit)
    (hrecord : 2 * record.length < limit) :
    Safe limit Reads (processClientFinishedIn .demands P record) (fun _ _ => True) fun e _ => Returned e := by
  refine Safe.bind (asked_safe (.demand fun _ _ => framingDemands_met hlimit record)) fun _ =>
    checkFraming_safe.bind fun bodyLen => .of_fact fun hframed => .get_bind fun ks hks => ?_
  split
  · exact .bare fun _ _ => trivial
  next hbody =>
    have hopen := (openRecord_safe P hrecord hframed (Nat.le_of_not_gt hbody)).starting hks
    refine (asked_safe hopen).bind fun plaintext =>
      Safe.bind (asked_safe (.demand fun _ hlen => ?_)) fun _ => ?_
    · exact payloadDemands_met hlimit (by omega)
    have hpayload : Safe limit (fun _ => plaintext.length ≤ bodyLen)
        (bare (fromResult ((Session.finishedPayload cs plaintext).mapError .err)) : ScheduleM cs Demand _)
        (fun _ _ => True) fun e _ => Returned e := by
      refine .bare fun ks _ => ?_
      cases Session.finishedPayload cs plaintext with
      | error e => trivial
      | ok payload => trivial
    refine hpayload.bind fun payload => .get_bind fun ks' _ => ?_
    refine Safe.bind (asked_safe (.demand fun _ _ => finishedDemands_met)) fun _ => ?_
    have hverify : Safe limit (· = ks') (bare (fromResult ((ks'.verifyClientFinished P
        ⟨payload.2, some (P.hash ks.serverState.transcriptHash)⟩).mapError
          fun _ => .err .cryptoError)) : ScheduleM cs Demand Bool) (fun _ _ => True) fun e _ => Returned e := by
      refine .bare fun ks _ => ?_
      cases ks'.verifyClientFinished P _ with
      | error e => trivial
      | ok ok => trivial
    refine hverify.bind fun ok => ?_
    have hmaster : Safe limit (fun _ => True)
        (installing .demands P (KeySchedule.zero cs) .clientApplicationTraffic
          .serverApplicationTraffic (KeySchedule.initializeMasterSecret P))
        (fun _ _ => True) fun e _ => Returned e := by
      refine installing_safe P _ _ _ fun ks _ => ?_
      rw [Session.orCryptoError, mapError_of_ok (KeySchedule.initializeMasterSecret_eq P ks)]
      trivial
    split
    · exact hmaster.bind fun _ => .bare fun _ _ => trivial
    · exact .bare fun _ _ => trivial

theorem sealPayload_safe (P : Primitives cs) {payload out : Bytes} (marker : ContentType)
    {writes : List Demand} (hout : 2 * out.length < limit)
    (hfit : RECORD_HEADER_LEN + (payload.length + 1 + cs.tagSize) ≤ out.length)
    (hsize : payload.length + 1 + cs.tagSize ≤ 65535) (hwrites : AllMet limit writes) :
    Safe limit Sends (sealPayload .demands P payload marker out writes) (fun _ _ => True)
      fun e _ => Returned e := by
  have hheader : RECORD_HEADER_LEN = 5 := rfl
  have hwritten : (splice out 0 (protectedHeader (payload.length + 1 + cs.tagSize) ++ payload ++
      [marker.toU8])).length = out.length := splice_length (by simp [protectedHeader]; omega)
  have hregion : (((splice out 0 (protectedHeader (payload.length + 1 + cs.tagSize) ++ payload ++
      [marker.toU8])).drop RECORD_HEADER_LEN).take (payload.length + 1 + cs.tagSize)).length =
      payload.length + 1 + cs.tagSize := by
    rw [List.length_take, List.length_drop, hwritten]
    omega
  refine Safe.bind (asked_safe (.demand fun _ _ => ?_)) fun _ =>
    Safe.bind (asked_safe (.demand fun _ _ => ?_)) fun _ => .get_bind fun ks hks => ?_
  · exact allMet_cons.mpr ⟨show payload.length + 1 + cs.tagSize < 2 ^ 16 by omega,
      allMet_append.mpr ⟨indices_met (by omega), hwrites⟩⟩
  · exact allMet_cons.mpr ⟨⟨by omega, by omega⟩, allMet_nil limit⟩
  have hcount : Safe limit (· = ks) (bare incrementServerCounter : ScheduleM cs Demand Unit)
      (fun _ _ => True) fun e _ => Returned e := by
    refine .bare fun ks' hks' => ?_
    rw [hks', incrementServerCounter_eq, if_pos (show CanCount ks.serverState.state from hks)]
    trivial
  refine (sealRegion_safe (by rw [hregion]; omega) (by rw [hregion]; omega)).bind fun ciphertext =>
    .of_fact fun _ => hcount.bind fun _ => Safe.bind (asked_safe (.demand fun _ _ => ?_)) fun _ =>
      .bare fun _ _ => trivial
  exact allMet_cons.mpr ⟨⟨Nat.zero_le _, by omega⟩, allMet_nil limit⟩

theorem totalDemands_met (hlimit : 2 ^ 32 ≤ limit) {payloadLen : Nat} (h : 2 * payloadLen < limit) :
    AllMet limit (totalDemands cs payloadLen) := by
  have htag : cs.tagSize = 16 := rfl
  simp only [totalDemands, allMet_cons, allMet_nil, and_true, Demand.Met, RECORD_HEADER_LEN]
  omega

end GatoPskTls.Server.Checked
