import GatoPskTls.Server.HelloSafety
import GatoPskTls.Server.Peer
import GatoPskTls.Server.RecordSafety

/-!
# Server: every call returns

A session as a machine that answers calls, with what each call asks of indices, slices, sums and
length fields. Whatever was called before, and whatever the peer sent, everything asked is met
and the call returns.
-/
namespace GatoPskTls.Server.Checked

open GatoPskTls Stateful BigEndian Splice Tracing Traced Demands Noted History

variable {cs : TlsCipherSuite} {limit : Nat} {α : Type}

section Safety

variable (P : Primitives cs) {record plaintext plaintextBuf out : Bytes} (hlimit : 2 ^ 32 ≤ limit)

include hlimit

theorem processClientFinished_serves (hrecord : 2 * record.length < limit) :
    Serves limit (fun s => Reads s.schedule) (processClientFinished .demands P record) fun _ _ => True :=
  .onPart fun _ hs => (processClientFinishedIn_safe P hlimit hrecord).starting hs

theorem encryptAppData_serves (hplaintext : 2 * plaintext.length < limit)
    (hout : 2 * out.length < limit) :
    Serves limit (fun s => Sends s.schedule) (encryptAppData .demands P plaintext out) fun _ _ => True := by
  refine Safe.bind (asked_safe (.demand fun _ _ => totalDemands_met hlimit hplaintext)) fun _ => ?_
  dsimp only
  split
  · exact .bare fun _ _ => trivial
  split
  · exact .bare fun _ _ => trivial
  next hroom hsize =>
    have hwrites : AllMet limit (payloadWrites plaintext.length out.length) := by
      simp only [payloadWrites, allMet_cons, allMet_nil, and_true, Demand.Met]
      omega
    exact .onPart fun _ hs =>
      (sealPayload_safe P .applicationData hout (by omega) (by omega) hwrites).starting hs

theorem encryptAlert_serves (level : AlertLevel) (description : AlertDescription)
    (hout : 2 * out.length < limit) :
    Serves limit (fun s => Sends s.schedule) (encryptAlert .demands P level description out)
      fun _ _ => True := by
  have htag : cs.tagSize = 16 := rfl
  refine Safe.bind (asked_safe (.demand fun _ _ => totalDemands_met hlimit (by omega))) fun _ => ?_
  split
  · exact .bare fun _ _ => trivial
  next hroom =>
    have hwrites : AllMet limit (alertWrites out.length) := by
      intro d hd
      obtain ⟨i, hi, rfl⟩ := List.mem_map.mp hd
      rw [List.mem_range] at hi
      exact show RECORD_HEADER_LEN + i < out.length by omega
    have hfit : RECORD_HEADER_LEN + ([level.toU8, description.toU8].length + 1 + cs.tagSize) ≤
        out.length := Nat.le_of_not_lt hroom
    have hsize : [level.toU8, description.toU8].length + 1 + cs.tagSize ≤ 65535 := by
      simp only [List.length_cons, List.length_nil]
      omega
    exact .onPart fun _ hs => (sealPayload_safe P .alert hout hfit hsize hwrites).starting hs

/-- What was opened fits the buffer. -/
theorem openPayload_safe (hrecord : 2 * record.length < limit) :
    Safe limit Reads (openPayload P record plaintextBuf)
      (fun opened _ => opened.2.length ≤ plaintextBuf.length) fun e _ => Returned e := by
  refine Safe.bind (.demand fun _ _ => framingDemands_met hlimit record) fun _ =>
    checkFraming_safe.bind fun bodyLen => .of_fact fun hframed => ?_
  split
  · exact .bare fun _ _ => trivial
  next hroom =>
    refine (openRecord_safe P hrecord hframed (Nat.le_of_not_lt hroom)).bind fun plaintext =>
      Safe.bind (.demand fun _ hlen => stripDemands_met (by omega)) fun _ => .bare fun ks hlen => ?_
    cases hstrip : Session.stripPadding plaintext with
    | error e => trivial
    | ok opened =>
        have hle := (Opening.stripPadding_take hstrip).1
        exact show opened.2.length ≤ plaintextBuf.length by omega

theorem onSchedule_openPayload_serves (hrecord : 2 * record.length < limit) :
    Serves limit (fun s => Reads s.schedule) (onSession (openPayload P record plaintextBuf))
      fun opened _ => opened.2.length ≤ plaintextBuf.length :=
  .onPart fun _ hs => (openPayload_safe P hlimit hrecord).starting hs

theorem decryptAppData_serves (hrecord : 2 * record.length < limit) :
    Serves limit (fun s => Reads s.schedule) (decryptAppData P record plaintextBuf)
      fun _ _ => True := by
  refine (onSchedule_openPayload_serves P hlimit hrecord).bind fun opened => ?_
  dsimp only
  split
  · exact .bare fun _ _ => trivial
  · exact .bare fun _ _ => trivial

theorem decryptAppDataOrAlert_serves (hrecord : 2 * record.length < limit) :
    Serves limit (fun s => Reads s.schedule) (decryptAppDataOrAlert P record plaintextBuf)
      fun _ _ => True := by
  refine (onSchedule_openPayload_serves P hlimit hrecord).bind fun opened =>
    Safe.bind (.demand fun _ hlen => ?_) fun _ => .bare fun s _ => ?_
  · rw [alertDemands]
    split
    next htwo =>
      simp only [allMet_cons, allMet_nil, and_true, Demand.Met]
      omega
    next => exact allMet_nil limit
  · cases Session.interpretPayload opened.1 opened.2 with
    | error e => trivial
    | ok interpreted => trivial

end Safety

/-- A step that cannot spoil the pinned session id. -/
def HoldsId (s s' : Session cs) : Prop := KeepsId s → KeepsId s'

instance : Std.Refl (@HoldsId cs) := ⟨fun _ hs => hs⟩

instance : IsTrans (Session cs) HoldsId := ⟨fun _ _ _ h h' hs => h' (h hs)⟩

theorem HoldsId.of_eq {s s' : Session cs} (h : s'.hrrState = s.hrrState) : HoldsId s s' := by
  intro hs
  rw [KeepsId, h]
  exact hs

theorem keepsId_snapshotCh1 (hello : ClientHelloRef) :
    Keeps HoldsId (Session.snapshotCh1 hello : Session.M cs Unit) := by
  intro s
  simp only [Session.snapshotCh1, get_bind_apply]
  split
  next hid =>
    intro _
    change (UInt8.ofNat hello.legacySessionId.length).toNat ≤ 32
    rw [UInt8.toNat_ofNat']
    exact (Nat.mod_le _ _).trans hid
  next => exact fun hs => hs

theorem keepsId_writing (out : Bytes) (x : Desk.M cs Unit) :
    Keeps HoldsId (Session.writing out x) := by
  intro s
  simp only [Session.writing]
  cases x ⟨s.schedule, .new out⟩ with
  | ok u d => exact .of_eq rfl
  | error e d => exact .of_eq rfl

theorem keepsId_onSchedule (x : KeySchedule.M cs α) : Keeps HoldsId (Session.onSchedule x) :=
  Keeps.onPart (R := fun _ _ => True) (fun _ => trivial) fun _ _ _ => .of_eq rfl

theorem keepsId_processClientHello (P : Primitives cs) (X : X25519) (msg : Bytes)
    (config : TlsServerConfig) (out : Bytes) :
    Keeps HoldsId (Session.processClientHello P X msg config out) := by
  have hbinder : ∀ offer, Keeps HoldsId (Session.checkBinder P msg offer) := by
    intro offer s
    rw [← Session.checkBinder_keeps offer s]
    exact Std.Refl.refl s
  have hprepare : Keeps HoldsId (Session.prepareBinderKey P config) := by
    refine .bind .get fun s => ?_
    split
    · exact .pure _
    · exact keepsId_onSchedule _
  refine .bind .get fun s => .bind (.fromResult _) fun offer => .bind hprepare fun _ =>
    .bind (hbinder offer) fun _ => ?_
  cases offer.decision with
  | retry group =>
      exact .bind (keepsId_writing _ _) fun _ => .bind (keepsId_snapshotCh1 _) fun _ => .pure _
  | use mode =>
      exact .bind (keepsId_onSchedule _) fun _ => .bind (keepsId_writing _ _) fun _ => .pure _

theorem reaches_keepsId {P : Primitives cs} {X : X25519}
    {h : List (Event (Session cs) Call Answer)} {s : Session cs}
    (hr : Reaches (Session.step P X) .new h s) : KeepsId s := by
  refine hr.invariant (fun _ s => KeepsId s) (show KeepsId (.new : Session cs) from Nat.zero_le 32)
    fun h s c _ hs => ?_
  cases c with
  | processClientHello msg config out => exact keepsId_processClientHello P X msg config out s hs
  | processClientFinished record =>
      exact HoldsId.of_eq (Session.keeps_processClientFinished record s).hrrState hs
  | encryptAppData plaintext out =>
      exact HoldsId.of_eq (Session.keeps_encryptAppData plaintext out s).hrrState hs
  | decryptAppData record buffer =>
      exact HoldsId.of_eq (Session.keeps_decryptAppData record buffer s).hrrState hs
  | encryptAlert level description out =>
      exact HoldsId.of_eq (Session.keeps_encryptAlert level description out s).hrrState hs
  | decryptAppDataOrAlert record buffer =>
      exact HoldsId.of_eq (Session.keeps_decryptAppDataOrAlert record buffer s).hrrState hs

def AnswerReturns : Answer → Prop
  | .handshake r => Returns r
  | .finished r => Returns r
  | .bytes r => Returns r
  | .dataOrAlert r => Returns r

/-- No slice is longer than `isize::MAX`; `limit` is `usize::MAX + 1`. -/
def Fits (limit : Nat) : Call → Prop
  | .processClientHello msg _ out => 2 * msg.length < limit ∧ 2 * out.length < limit
  | .processClientFinished record => 2 * record.length < limit
  | .encryptAppData plaintext out => 2 * plaintext.length < limit ∧ 2 * out.length < limit
  | .decryptAppData record _ => 2 * record.length < limit
  | .encryptAlert _ _ out => 2 * out.length < limit
  | .decryptAppDataOrAlert record _ => 2 * record.length < limit

/-- The traced call gives the same answer and state, nothing it asks is out of range, and the answer
is `Ok` or `Err`. -/
structure Total (limit : Nat) (P : Primitives cs) (X : X25519) (s : Session cs) (c : Call) : Prop where
  same : (step .demands P X s c).1 = Session.step P X s c
  met : AllMet limit (step .demands P X s c).2
  returns : AnswerReturns (Session.step P X s c).1

theorem Serves.returns {pre : Session cs → Prop} {x : SessionM cs Demand α} {y : Session.M cs α}
    (h : Serves limit pre x fun _ _ => True) (herase : x.erase = y) {s : Session cs} (hs : pre s) :
    Returns (outcome (y s)) := by
  intro stop hstop
  have hends := h.ends hs
  rw [herase] at hends
  cases hrun : y s with
  | ok a s' =>
      rw [hrun] at hstop
      cases hstop
  | error e s' =>
      rw [hrun] at hstop
      cases hstop
      exact hends.error hrun

/-- In every state that calls lead to, for every input: no index, slice, sum or length field is out
of range, and the call returns. -/
theorem step_total (hlimit : 2 ^ 32 ≤ limit) (P : Primitives cs) (X : X25519)
    {h : List (Event (Session cs) Call Answer)} {s : Session cs}
    (hr : Reaches (Session.step P X) .new h s) (hreads : CanCount s.schedule.clientState.state)
    (hsends : CanCount s.schedule.serverState.state) (c : Call) (hc : Fits limit c) :
    Total limit P X s c := by
  have hid := reaches_keepsId hr
  have hsame := step_eq .demands P X s c
  cases c with
  | processClientHello msg config out =>
      have hserves := processClientHello_serves hlimit hc.2 P X config hc.1
      exact ⟨hsame, hserves.met hid,
        hserves.returns (erase_processClientHello .demands P X msg config out) hid⟩
  | processClientFinished record =>
      have hserves := processClientFinished_serves P hlimit hc
      exact ⟨hsame, hserves.met hreads,
        hserves.returns (erase_processClientFinished .demands P record) hreads⟩
  | encryptAppData plaintext out =>
      have hserves := encryptAppData_serves P hlimit hc.1 hc.2
      exact ⟨hsame, hserves.met hsends,
        hserves.returns (erase_encryptAppData .demands P plaintext out) hsends⟩
  | decryptAppData record buffer =>
      have hserves := @decryptAppData_serves cs limit P record buffer hlimit hc
      exact ⟨hsame, hserves.met hreads, hserves.returns (erase_decryptAppData P record buffer) hreads⟩
  | encryptAlert level description out =>
      have hserves := encryptAlert_serves P hlimit level description hc
      exact ⟨hsame, hserves.met hsends,
        hserves.returns (erase_encryptAlert .demands P level description out) hsends⟩
  | decryptAppDataOrAlert record buffer =>
      have hserves := @decryptAppDataOrAlert_serves cs limit P record buffer hlimit hc
      exact ⟨hsame, hserves.met hreads,
        hserves.returns (erase_decryptAppDataOrAlert P record buffer) hreads⟩

namespace Sample

open Peer

/-- A server that has asked for a share. -/
def retried : Session .aes128GcmSha256 :=
  (Session.step suite additive .new (.processClientHello shareless config room)).2

/-- The second ClientHello, with no room for an answer. -/
theorem step_total_retried : retried.hrrState.sent = true ∧
    Total (2 ^ 64) suite additive retried (.processClientHello answering config []) :=
  ⟨by decide +kernel, step_total (by decide) suite additive (.call _ .nil) (by decide +kernel)
    (by decide +kernel) _ ⟨by decide +kernel, by decide⟩⟩

end Sample

end GatoPskTls.Server.Checked
