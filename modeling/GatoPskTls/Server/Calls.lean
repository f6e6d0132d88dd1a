import GatoPskTls.Lib.History
import GatoPskTls.Server.SessionSpec

/-!
# Server: sequences of calls

A session as a machine that answers calls. What the operations never undo, whichever
way they end: once a HelloRetryRequest has been sent, the pinned fields and the binder
key stay, and the transcript only grows.
-/
namespace GatoPskTls.Server

open GatoPskTls Stateful History

variable {cs : TlsCipherSuite}

inductive Call
  | processClientHello (msg : Bytes) (config : TlsServerConfig) (out : Bytes)
  | processClientFinished (record : Bytes)
  | encryptAppData (plaintext out : Bytes)
  | decryptAppData (record buffer : Bytes)
  | encryptAlert (level : AlertLevel) (description : AlertDescription) (out : Bytes)
  | decryptAppDataOrAlert (record buffer : Bytes)
  deriving DecidableEq

inductive Answer
  | handshake (r : Except Stop HandshakeOutput)
  | finished (r : Except Stop Unit)
  | bytes (r : Except Stop Bytes)
  | dataOrAlert (r : Except Stop AppDataOrAlert)
  deriving DecidableEq

/-- The bytes an answer carries, if it carries any. -/
def Answer.carried : Answer → Bytes
  | handshake (.ok (.firstFlight flight)) => flight
  | handshake (.ok (.helloRetryRequest record)) => record
  | bytes (.ok record) => record
  | _ => []

namespace Session

/-- One call. A panic is an answer too: the state it leaves behind is the one it had. -/
def step (P : Primitives cs) (X : X25519) (s : Session cs) : Call → Answer × Session cs
  | .processClientHello msg config out =>
      let r := processClientHello P X msg config out s
      (.handshake (outcome r), after r)
  | .processClientFinished record =>
      let r := processClientFinished P record s
      (.finished (outcome r), after r)
  | .encryptAppData plaintext out =>
      let r := encryptAppData P plaintext out s
      (.bytes (outcome r), after r)
  | .decryptAppData record buffer =>
      let r := decryptAppData P record buffer s
      (.bytes (outcome r), after r)
  | .encryptAlert level description out =>
      let r := encryptAlert P level description out s
      (.bytes (outcome r), after r)
  | .decryptAppDataOrAlert record buffer =>
      let r := decryptAppDataOrAlert P record buffer s
      (.dataOrAlert (outcome r), after r)

/-- The binder key is the same and the transcript has only grown. -/
structure Extends (ks ks' : KeySchedule cs) : Prop where
  binderKey : ks'.clientState.binderKey = ks.clientState.binderKey
  transcript : ks.serverState.transcriptHash <+: ks'.serverState.transcriptHash

instance : Std.Refl (@Extends cs) := ⟨fun _ => ⟨rfl, List.prefix_refl _⟩⟩

instance : IsTrans (KeySchedule cs) Extends :=
  ⟨fun _ _ _ h h' => ⟨h'.binderKey.trans h.binderKey, h.transcript.trans h'.transcript⟩⟩

section Schedule

variable {P : Primitives cs} {X : X25519}

theorem keeps_updateTranscript (data : Bytes) :
    Keeps Extends (KeySchedule.updateTranscript data : KeySchedule.M cs Unit) :=
  .modify fun _ => ⟨rfl, List.prefix_append _ _⟩

theorem keeps_onServer {α : Type} (x : EStateM Stop (KeyScheduleState cs) α) :
    Keeps Extends (KeySchedule.onServer x) :=
  Keeps.onPart (R := fun _ _ => True) (fun _ => trivial) fun _ _ _ => ⟨rfl, List.prefix_refl _⟩

theorem keeps_onClient {α : Type} (x : EStateM Stop (KeyScheduleState cs) α) :
    Keeps Extends (KeySchedule.onClient x) :=
  Keeps.onPart (R := fun _ _ => True) (fun _ => trivial) fun _ _ _ => ⟨rfl, List.prefix_refl _⟩

theorem extends_advance (ikm : Bytes) (clientLabel serverLabel : Label) (ks : KeySchedule cs) :
    Extends ks (Rfc8446.advance P ikm clientLabel serverLabel ks) := ⟨rfl, List.prefix_refl _⟩

theorem keeps_initializeHandshakeSecret (ikm : Bytes) :
    Keeps Extends (KeySchedule.initializeHandshakeSecret P ikm) := by
  intro ks
  rw [KeySchedule.initializeHandshakeSecret_eq]
  exact extends_advance ikm _ _ ks

theorem keeps_initializeMasterSecret : Keeps Extends (KeySchedule.initializeMasterSecret P) := by
  intro ks
  rw [KeySchedule.initializeMasterSecret_eq]
  exact extends_advance _ _ _ ks

theorem keeps_installHandshakeKeys (config : TlsServerConfig) (mode : KexMode) :
    Keeps Extends (installHandshakeKeys P X config mode) := by
  cases mode with
  | pskKe => exact (keeps_initializeHandshakeSecret _).mapError
  | pskDheKe clientPub =>
      simp only [installHandshakeKeys]
      split
      · exact .throw _
      · split
        · split
          · exact .throw _
          · exact (keeps_initializeHandshakeSecret _).mapError
        · exact .throw _

theorem keeps_openRecord (record buffer : Bytes) : Keeps Extends (openRecord P record buffer) := by
  refine .bind .get fun ks => .bind (.fromResult _) fun key => .bind (.fromResult _) fun nonce => ?_
  split
  · exact .throw _
  · exact .bind (keeps_onClient _) fun _ => .pure _

theorem keeps_sealPayload (payload : Bytes) (marker : ContentType) (out : Bytes) :
    Keeps Extends (sealPayload P payload marker out) :=
  .bind .get fun _ => .bind (.fromResult _) fun _ => .bind (keeps_onServer _) fun _ => .pure _

theorem keeps_openPayload (record buffer : Bytes) : Keeps Extends (openPayload P record buffer) := by
  refine .bind (.fromResult _) fun bodyLen => ?_
  split
  · exact .throw _
  · exact .bind (keeps_openRecord _ _) fun _ => .fromResult _

theorem keeps_processClientFinishedIn (record : Bytes) :
    Keeps Extends (processClientFinishedIn P record) := by
  refine .bind (.fromResult _) fun bodyLen => .bind .get fun ks => ?_
  split
  · exact .throw _
  refine .bind (keeps_openRecord _ _) fun _ => .bind (.fromResult _) fun _ =>
    .bind .get fun _ => .bind (.fromResult _) fun ok => ?_
  split
  · exact .bind keeps_initializeMasterSecret.mapError fun _ => keeps_updateTranscript _
  · exact .throw _

end Schedule

def DeskExtends (d d' : Desk cs) : Prop := Extends d.schedule d'.schedule

instance : Std.Refl (@DeskExtends cs) := ⟨fun d => Std.Refl.refl (r := Extends) d.schedule⟩

instance : IsTrans (Desk cs) DeskExtends := ⟨fun d _ d' => IsTrans.trans d.schedule _ d'.schedule⟩

section Writers

variable {P : Primitives cs} {X : X25519}

theorem keeps_onWriter {α : Type} (x : EStateM Stop OutWriter α) :
    Keeps (@DeskExtends cs) (Desk.onWriter x) :=
  Keeps.onPart (R := fun _ _ => True) (fun _ => trivial) fun d _ _ => Std.Refl.refl d.schedule

theorem keeps_desk_onSchedule {α : Type} {x : KeySchedule.M cs α} (h : Keeps Extends x) :
    Keeps DeskExtends (Desk.onSchedule x) :=
  h.onPart fun _ _ h => h

theorem keeps_writeServerHelloRecord (config : TlsServerConfig) (sessionId : Bytes) (idx : Nat)
    (mode : KexMode) : Keeps (@DeskExtends cs) (writeServerHelloRecord config sessionId idx mode) :=
  .bind (keeps_onWriter _) fun _ =>
    .bind .get fun _ => keeps_desk_onSchedule (keeps_updateTranscript _)

theorem keeps_closeHandshakeRecord (recordStart innerStart : Nat) (ciphertext : Bytes) :
    Keeps (@DeskExtends cs) (closeHandshakeRecord recordStart innerStart ciphertext) :=
  .bind (keeps_onWriter _) fun _ =>
    .bind (keeps_desk_onSchedule (keeps_onServer _)) fun _ => keeps_onWriter _

theorem keeps_sealHandshakeRecord (recordStart innerStart : Nat) (inner : Bytes) :
    Keeps DeskExtends (sealHandshakeRecord P recordStart innerStart inner) := by
  refine .bind (keeps_onWriter _) fun _ =>
    .bind (keeps_desk_onSchedule (keeps_updateTranscript _)) fun _ => .bind .get fun d => ?_
  dsimp only
  split
  · exact .throw _
  · exact .bind (.fromResult _) fun _ => keeps_closeHandshakeRecord _ _ _

theorem keeps_writeEncryptedHandshakeRecord (enc : InnerEncoder cs) :
    Keeps DeskExtends (writeEncryptedHandshakeRecord P enc) := by
  refine .bind .get fun _ => .bind (keeps_onWriter _) fun _ => .bind .get fun d => ?_
  dsimp only
  split
  · exact .throw _
  · exact .bind (.fromResult _) fun _ => keeps_sealHandshakeRecord _ _ _

theorem keeps_writeFlight (config : TlsServerConfig) (offer : Offer) (mode : KexMode) :
    Keeps DeskExtends (writeFlight P X config offer mode) :=
  .bind (keeps_writeServerHelloRecord _ _ _ _) fun _ =>
    .bind (keeps_desk_onSchedule (keeps_installHandshakeKeys _ _)) fun _ =>
      .bind (keeps_writeEncryptedHandshakeRecord _) fun _ => keeps_writeEncryptedHandshakeRecord _

end Writers

/-- The record of the retry is the same, and the schedule extends the earlier one. -/
structure Pinned (s s' : Session cs) : Prop where
  hrrState : s'.hrrState = s.hrrState
  schedule : Extends s.schedule s'.schedule

instance : Std.Refl (@Pinned cs) := ⟨fun s => ⟨rfl, Std.Refl.refl s.schedule⟩⟩

instance : IsTrans (Session cs) Pinned :=
  ⟨fun _ _ _ h h' => ⟨h'.hrrState.trans h.hrrState, IsTrans.trans _ _ _ h.schedule h'.schedule⟩⟩

section Sessions

variable {P : Primitives cs} {X : X25519} {s : Session cs} {msg out : Bytes}
  {config : TlsServerConfig}

theorem keeps_onSchedule {α : Type} {x : KeySchedule.M cs α} (h : Keeps Extends x) :
    Keeps Pinned (onSchedule x) :=
  h.onPart fun _ _ h => ⟨rfl, h⟩

theorem keeps_writing {x : Desk.M cs Unit} (h : Keeps DeskExtends x) (out : Bytes) :
    Keeps Pinned (writing out x) := by
  intro s
  simp only [writing]
  cases hx : x ⟨s.schedule, .new out⟩ with
  | ok a d => exact ⟨rfl, h.ok hx⟩
  | error e d => exact ⟨rfl, h.error hx⟩

theorem keeps_firstFlight (offer : Offer) (mode : KexMode) :
    Keeps Pinned (firstFlight P X msg config offer mode out) :=
  .bind (keeps_onSchedule (keeps_updateTranscript _)) fun _ =>
    .bind (keeps_writing (keeps_writeFlight _ _ _) _) fun _ => .pure _

theorem keeps_processClientFinished (record : Bytes) :
    Keeps Pinned (processClientFinished P record) :=
  keeps_onSchedule (keeps_processClientFinishedIn _)

theorem keeps_encryptAppData (plaintext out : Bytes) :
    Keeps Pinned (encryptAppData P plaintext out) := by
  simp only [encryptAppData]
  split
  · exact .throw _
  · split
    · exact .throw _
    · exact keeps_onSchedule (keeps_sealPayload _ _ _)

theorem keeps_encryptAlert (level : AlertLevel) (description : AlertDescription) (out : Bytes) :
    Keeps Pinned (encryptAlert P level description out) := by
  simp only [encryptAlert]
  split
  · exact .throw _
  · exact keeps_onSchedule (keeps_sealPayload _ _ _)

theorem keeps_decryptAppData (record buffer : Bytes) :
    Keeps Pinned (decryptAppData P record buffer) := by
  refine .bind (keeps_onSchedule (keeps_openPayload _ _)) fun _ => ?_
  dsimp only
  split
  · exact .throw _
  · exact .pure _

theorem keeps_decryptAppDataOrAlert (record buffer : Bytes) :
    Keeps Pinned (decryptAppDataOrAlert P record buffer) :=
  .bind (keeps_onSchedule (keeps_openPayload _ _)) fun _ => .fromResult _

theorem keeps_checkBinder (offer : Offer) : Keeps Pinned (checkBinder P msg offer) := by
  intro s
  rw [← checkBinder_keeps offer s]
  exact Std.Refl.refl s

/-- After a retry, a ClientHello changes neither the record of it nor the binder key. -/
theorem processClientHello_pinned (hsent : s.hrrState.sent = true) :
    Pinned s (after (processClientHello P X msg config out s)) := by
  simp only [processClientHello, get_bind_apply]
  cases hexamine : examine msg config s.hrrState with
  | error e => exact Std.Refl.refl s
  | ok offer =>
      rw [fromResult_ok_bind, bind_of_ok prepareBinderKey_eq, prepared_of_sent hsent]
      refine Keeps.bind (R := Pinned) (keeps_checkBinder offer) (fun _ => ?_) s
      cases hd : offer.decision with
      | retry group =>
          have hkex := (examine_eq_ok.mp hexamine).2.2.2.2.1
          rw [hd, hsent] at hkex
          exact absurd (decideKex_retry hkex).1 (by simp)
      | use mode => exact keeps_firstFlight offer mode

theorem step_pinned (hsent : s.hrrState.sent = true) (c : Call) : Pinned s (step P X s c).2 := by
  cases c with
  | processClientHello msg config out => exact processClientHello_pinned hsent
  | processClientFinished record => exact keeps_processClientFinished record s
  | encryptAppData plaintext out => exact keeps_encryptAppData plaintext out s
  | decryptAppData record buffer => exact keeps_decryptAppData record buffer s
  | encryptAlert level description out => exact keeps_encryptAlert level description out s
  | decryptAppDataOrAlert record buffer => exact keeps_decryptAppDataOrAlert record buffer s

/-- A run that starts after a retry. -/
theorem reaches_pinned {h : List (Event (Session cs) Call Answer)} {s s' : Session cs}
    (hsent : s.hrrState.sent = true) (hr : Reaches (step P X) s h s') : Pinned s s' := by
  refine hr.invariant (fun _ t => Pinned s t) (Std.Refl.refl s) fun h t c _ ih => ?_
  exact IsTrans.trans _ _ _ ih (step_pinned (by rw [ih.hrrState]; exact hsent) c)

variable {c : Call} {bytes : Bytes}

theorem step_firstFlight (h : (step P X s c).1 = .handshake (.ok (.firstFlight bytes))) :
    ∃ msg config out, c = .processClientHello msg config out ∧
      ∃ f : FirstFlight P X msg config s, f.Written bytes ∧ (step P X s c).2 = f.session := by
  cases c with
  | processClientHello msg config out =>
      have hok := outcome_eq_ok (Answer.handshake.inj h)
      obtain ⟨f, hwritten, -, hs⟩ := processClientHello_firstFlight.mp hok
      exact ⟨msg, config, out, rfl, f, hwritten, hs⟩
  | _ => cases h

theorem step_retry (h : (step P X s c).1 = .handshake (.ok (.helloRetryRequest bytes))) :
    ∃ msg config out, c = .processClientHello msg config out ∧
      ∃ r : Retry P msg config s, bytes = plaintextRecord r.hrr ∧ (step P X s c).2 = r.session := by
  cases c with
  | processClientHello msg config out =>
      have hok := outcome_eq_ok (Answer.handshake.inj h)
      obtain ⟨r, hbytes, -, hs⟩ := processClientHello_retry.mp hok
      exact ⟨msg, config, out, rfl, r, hbytes, hs⟩
  | _ => cases h

theorem step_finished (h : (step P X s c).1 = .finished (.ok ())) :
    ∃ record, c = .processClientFinished record ∧
      ∃ f : ClientFinished P record s.schedule,
        (step P X s c).2 = { s with schedule := f.schedule } := by
  cases c with
  | processClientFinished record =>
      have hok := outcome_eq_ok (Answer.finished.inj h)
      obtain ⟨f, hs⟩ := processClientFinished_eq_ok.mp hok
      exact ⟨record, rfl, f, hs⟩
  | _ => cases h

end Sessions

end Session

end GatoPskTls.Server
