import GatoPskTls.Client.Received

/-!
# Records an attacker injects

The client as a machine, from the moment its handshake keys are installed, against a transport
that delivers anything. Each step that takes a record takes from it only what the AEAD has
vouched for, unless the record is one of the two kinds that get through unprotected.
-/
namespace GatoPskTls.Client

open Stateful Splice History ParseBuffer

variable {cs : TlsCipherSuite} {π : Type} {P : Primitives cs} {pr : CryptoProvider π}

/-- The handshake is not completed by the server's messages. -/
def StillOpening (r r' : Reading cs (Verifying π)) : Prop :=
  r.captured.state ≠ .applicationData → r'.captured.state ≠ .applicationData

instance : Std.Refl (@StillOpening cs π) := ⟨fun _ h => h⟩

instance : IsTrans (Reading cs (Verifying π)) StillOpening := ⟨fun _ _ _ h h' hs => h' (h hs)⟩

theorem keeps_state_onCaptured {x : EStateM Stop (Verifying π) Unit}
    (hx : Keeps (fun v v' => v.state ≠ .applicationData → v'.state ≠ .applicationData) x) :
    Keeps StillOpening (Reading.onCaptured x : Reading.M cs (Verifying π) Unit) :=
  hx.onPart fun _ _ h => h

theorem Verifying.keeps_checkWith (check : Check) (verify : EStateM Stop π Unit) :
    Keeps (fun v v' : Verifying π => v.state ≠ .applicationData → v'.state ≠ .applicationData)
      (checkWith pr check verify) := by
  intro v hv
  simp only [checkWith]
  split
  · exact hv
  · split <;> exact hv

theorem keeps_state_verifyRecord (record : ServerRecord cs) :
    Keeps StillOpening (verifyRecord P pr record) := by
  refine keeps_verifyRecord_of (fun _ _ => keeps_state_onCaptured (Verifying.keeps_checkWith _ _))
    (fun request => keeps_state_onCaptured fun v hv => ?_)
    (fun transcript => keeps_state_onCaptured fun v _ => ?_) record
  · simp only [Verifying.storeRequest]
    cases (CertificateRequest.tryFrom request).mapError Stop.err with
    | ok request => exact hv
    | error e => exact hv
  · simp only [Verifying.finish, modify_apply, after_ok]
    split <;> nofun

namespace Opening

/-- Nothing about reading has changed. -/
abbrev SameInput : Opening cs π → Opening cs π → Prop := Order.Preimage channel Channel.SameInput

theorem keeps_onChannel {α : Type} {x : Channel.M cs α} (hx : Keeps Channel.SameInput x) :
    Keeps SameInput (onChannel x : M cs π α) := hx.onPart fun _ _ h => h

/-- The peer is told before the error is passed on. -/
def abort (P : Primitives cs) (level : AlertLevel) (description : AlertDescription) : M cs π State := do
  let tx ← onChannel (Channel.writeRecord P (.alert ⟨level, description⟩ false))
  onChannel (Channel.respond tx)
  throw (.err (.abortHandshake level description))

theorem abort_eq_error (level : AlertLevel) (description : AlertDescription) (o : Opening cs π) :
    ∃ e o', abort P level description o = .error e o' ∧ SameInput o o' := by
  have hkept : Keeps SameInput (abort P level description : M cs π State) :=
    (keeps_onChannel (Channel.keeps_writeRecord_alert P _ false)).bind fun tx =>
      (keeps_onChannel (Channel.keeps_respond tx)).bind fun _ => .throw _
  cases hrun : abort P level description o with
  | error e o' => exact ⟨e, o', rfl, hkept.error hrun⟩
  | ok state o' =>
      obtain ⟨_, _, -, h⟩ := bind_eq_ok.mp hrun
      obtain ⟨_, _, -, h⟩ := bind_eq_ok.mp h
      cases h

theorem handleProcessingError_of_error {x : M cs π State} {o o' : Opening cs π} {e : Stop}
    (h : x o = .error e o') :
    ∃ e' o'', handleProcessingError P x o = .error e' o'' ∧ SameInput o' o'' := by
  simp only [handleProcessingError, h]
  split
  next level description o₁ heq =>
    cases heq
    exact abort_eq_error level description o'
  next => exact ⟨e, o', rfl, Std.Refl.refl (r := SameInput) o'⟩

theorem process_of_fetch_error {o : Opening cs π} {e : Stop} {i : Intake}
    (h : RecordReader.fetch o.channel.intake = .error e i) :
    process P pr .serverVerify o = .error e { o with channel.intake := i } :=
  bind_of_error (onPart_of_error (Channel.read_of_fetch_error h))

theorem handled_processServerVerify (record : ServerRecord cs) (o : Opening cs π) :
    (after (handleProcessingError P (processServerVerify P pr record) o)).channel.schedule.serverState =
        (after (decryptRecord P (verifyRecord P pr) record o.reading)).schedule ∧
      ∀ state o', handleProcessingError P (processServerVerify P pr record) o = .ok state o' →
        ∃ r, decryptRecord P (verifyRecord P pr) record o.reading = .ok () r ∧
          state = r.captured.state := by
  cases hdecrypt : decryptRecord P (verifyRecord P pr) record o.reading with
  | error e r =>
      have hverify : processServerVerify P pr record o = .error e (putReading o r) :=
        onPart_of_error (bind_of_error hdecrypt)
      obtain ⟨e', o'', herror, hsame⟩ := handleProcessingError_of_error (P := P) hverify
      rw [herror]
      exact ⟨hsame.serverState, fun _ _ h => by cases h⟩
  | ok u r =>
      have hverify : processServerVerify P pr record o = .ok r.captured.state (putReading o r) :=
        onPart_of_ok (bind_of_ok hdecrypt)
      simp only [handleProcessingError, hverify]
      refine ⟨rfl, fun state o' hok => ?_⟩
      cases hok
      exact ⟨r, rfl, rfl⟩

variable (P pr) in
/-- A turn in `ServerVerify` does to the read key schedule what its record does. -/
theorem process_of_fetch {o : Opening cs π} {f : RecordReader.Fetched} {i : Intake}
    (h : RecordReader.fetch o.channel.intake = .ok f i) :
    (after (process P pr .serverVerify o)).channel.schedule.serverState =
        (after (received P (verifyRecord P pr) f
          (reading { o with channel.intake := i }))).schedule ∧
      ∀ state o', process P pr .serverVerify o = .ok state o' →
        ∃ r, received P (verifyRecord P pr) f (reading { o with channel.intake := i }) = .ok () r ∧
          state = r.captured.state := by
  have hread := Channel.read_of_fetch (P := P) h
  cases hd : ServerRecord.decode P f.header f.body o.channel.schedule.serverState.transcriptHash with
  | error e t =>
      have hreceived : received P (verifyRecord P pr) f (reading { o with channel.intake := i }) =
          .error e (reading { o with channel := { o.channel with
            intake := i, schedule.serverState.transcriptHash := t } }) := by
        simp only [received, reading, hd]
      simp only [hd] at hread
      have hprocess : process P pr .serverVerify o = .error e { o with channel := { o.channel with
          intake := i, schedule.serverState.transcriptHash := t } } :=
        bind_of_error (onPart_of_error hread)
      rw [hprocess, hreceived]
      exact ⟨rfl, fun _ _ h => by cases h⟩
  | ok record t =>
      have hreceived : received P (verifyRecord P pr) f (reading { o with channel.intake := i }) =
          decryptRecord P (verifyRecord P pr) record (reading { o with channel := { o.channel with
            intake := i, schedule.serverState.transcriptHash := t } }) := by
        simp only [received, reading, hd]
      simp only [hd] at hread
      have hprocess : process P pr .serverVerify o =
          handleProcessingError P (processServerVerify P pr record) { o with channel := { o.channel with
            intake := i, schedule.serverState.transcriptHash := t } } :=
        bind_of_ok (onPart_of_ok hread)
      rw [hprocess, hreceived]
      exact handled_processServerVerify record _

end Opening

namespace Phase

def intake (s : Phase cs π) : Intake := s.connection.channel.intake

def transcript (s : Phase cs π) : Bytes := s.connection.channel.schedule.serverState.transcriptHash

/-- The keys and the count records are opened with. -/
def readState (s : Phase cs π) : KeyScheduleState cs := s.connection.channel.schedule.serverState.state

def opened (s : Phase cs π) : Bool := s.connection.opened

def window (s : Phase cs π) : Bytes := s.connection.window

/-- The call takes a record from the transport. -/
def awaits : Phase cs π → Call → Bool
  | opening _ .serverVerify _, .process => true
  | connected c, .turn => c.opened && c.decrypted.isEmpty
  | _, _ => false

/-- What a record has no business to change. -/
structure Unchanged (s s' : Phase cs π) : Prop where
  transcript : s'.transcript = s.transcript
  readState : s'.readState = s.readState
  opened : s'.opened = s.opened
  window : s'.window = s.window

/-- Whatever was absorbed, acted upon or made available came out of the plaintext. -/
structure Draws (plaintext : Bytes) (s s' : Phase cs π) : Prop where
  transcript : Absorbs plaintext s.transcript s'.transcript
  opened : s'.opened ≠ s.opened → ∃ content alert, Holds plaintext .alert content ∧
    ServerRecord.parsed Alert.parse content = .ok alert ∧ alert.description = .closeNotify
  window : s'.window ≠ s.window → Holds plaintext .applicationData s'.window

/-- The client takes from a record only what the AEAD vouches for: an authentic record gives
what it holds, any other is a ChangeCipherSpec or an error, and changes nothing. -/
def Genuine (P : Primitives cs) (pr : CryptoProvider π) (s : Phase cs π) (call : Call) : Prop :=
  s.awaits call →
    (∀ e i, RecordReader.fetch s.intake = .error e i →
      Unchanged s (step P pr s call).2 ∧ (step P pr s call).1 = some (.error e)) ∧
    ∀ f i, RecordReader.fetch s.intake = .ok f i →
      (∀ plaintext, Authentic P s.readState f plaintext →
        Draws plaintext s (step P pr s call).2) ∧
      ((¬∃ plaintext, Authentic P s.readState f plaintext) →
        Unchanged s (step P pr s call).2 ∧
          (f.header.contentType = .changeCipherSpec ∨ ∃ e, (step P pr s call).1 = some (.error e)))

/-- The next record is an unprotected handshake record whose first message can be read or, on
an open connection, an unprotected `CloseNotify`. -/
def Injects (s : Phase cs π) (call : Call) : Prop :=
  s.awaits call ∧ ∃ f i, RecordReader.fetch s.intake = .ok f i ∧
    (Smuggles cs f ∨ s.opened ∧ SaysGoodbye f)

instance (f : RecordReader.Fetched) : Decidable (Smuggles cs f) :=
  match h : (ServerHandshake.parse (.new f.body) : EStateM.Result _ _ (ServerHandshake cs)) with
  | .ok m buf => decidable_of_iff (f.header.contentType = .handshake) (by simp [Smuggles, h])
  | .error e buf => .isFalse (by simp [Smuggles, h])

instance (f : RecordReader.Fetched) : Decidable (SaysGoodbye f) :=
  match h : ServerRecord.parsed Alert.parse f.body with
  | .ok a => decidable_of_iff (f.header.contentType = .alert ∧ a.description = .closeNotify)
      (by simp [SaysGoodbye, h])
  | .error e => .isFalse (by simp [SaysGoodbye, h])

instance (s : Phase cs π) (call : Call) : Decidable (s.Injects call) :=
  match h : RecordReader.fetch s.intake with
  | .ok f i => decidable_of_iff (s.awaits call ∧ (Smuggles cs f ∨ s.opened ∧ SaysGoodbye f))
      (by simp [Injects, h])
  | .error e i => .isFalse (by simp [Injects, h])

theorem leftBy_connection (c : TlsConnection cs) (e : Stop) :
    (leftBy c e : Phase cs π).connection = c := by
  cases e <;> rfl

theorem answered_connection {α : Type} (answer : α → Answer)
    (r : EStateM.Result Stop (TlsConnection cs) α) :
    (answered answer r : _ × Phase cs π).2.connection = after r := by
  cases r with
  | ok a c => rfl
  | error e c => exact leftBy_connection c e

theorem processed_connection (flushPolicy : FlushPolicy)
    {r : EStateM.Result Stop (Opening cs π) State} (h : ∀ o, r ≠ .ok .applicationData o) :
    (processed flushPolicy r).2.connection = ⟨(after r).channel, false, .default, flushPolicy⟩ := by
  cases r with
  | error e o => exact leftBy_connection _ e
  | ok state o =>
      cases state with
      | applicationData => exact absurd rfl (h o)
      | serverVerify => rfl
      | clientCert => rfl
      | clientCertVerify => rfl
      | clientFinished => rfl

end Phase

theorem Authentic.contentType {s : KeyScheduleState cs} {f : RecordReader.Fetched}
    (h : ∃ plaintext, Authentic P s f plaintext) : f.header.contentType = .applicationData := by
  obtain ⟨_, hc, -⟩ := h
  exact hc

/-- Unprotected, the server's messages are refused, but for the ChangeCipherSpec. -/
theorem Receives.verified {f : RecordReader.Fetched} {r r' : Reading cs (Verifying π)}
    (h : Receives P (verifyRecord P pr) f r (.ok () r')) (hs : ¬Smuggles cs f)
    (hnot : ¬∃ plaintext, Authentic P r.schedule.state f plaintext) :
    f.header.contentType = .changeCipherSpec := by
  generalize hres : (EStateM.Result.ok () r' : EStateM.Result Stop _ Unit) = res at h
  cases h with
  | refused e => cases hres
  | changeCipherSpec hc => exact hc
  | alert hc ha => cases hres
  | message hm => exact absurd hm hs
  | content hauth => exact absurd ⟨_, hauth⟩ hnot

namespace Phase

section Verify

variable {o : Opening cs π} {flushPolicy : FlushPolicy}

theorem process_ne_applicationData {f : RecordReader.Fetched} {i : Intake}
    (hf : RecordReader.fetch o.channel.intake = .ok f i) (o' : Opening cs π) :
    o.process P pr .serverVerify ≠ .ok .applicationData o' := by
  intro h
  obtain ⟨r, hr, hstate⟩ := (Opening.process_of_fetch P pr hf).2 _ _ h
  have hkept : ∀ r₀ : Reading cs (Verifying π), r₀.captured.state = .serverVerify →
      received P (verifyRecord P pr) f r₀ = .ok () r → r.captured.state ≠ .applicationData := by
    intro r₀ hstart hreceived
    simp only [received] at hreceived
    split at hreceived
    next record t hd =>
      have hkeeps : Keeps StillOpening (decryptRecord P (verifyRecord P pr) record) := by
        refine keeps_decryptRecord (fun buf r => ?_) (fun r => ?_) keeps_state_verifyRecord record
        · have hcaptured : SameCaptured r (after (Reading.readMessage P buf r)) :=
            keeps_readMessage P buf r
          exact fun hs => hcaptured ▸ hs
        · have hcaptured : SameCaptured r
              (after (Reading.onState KeyScheduleState.incrementCounter r)) := keeps_onState _ r
          exact fun hs => hcaptured ▸ hs
      exact hkeeps.ok hreceived (by simp [hstart])
    next => cases hreceived
  exact hkept _ rfl hr hstate.symm

variable (P pr flushPolicy) in
/-- The state after a turn that took a record. -/
theorem verify_connection {f : RecordReader.Fetched} {i : Intake}
    (hf : RecordReader.fetch o.channel.intake = .ok f i) :
    (step P pr (opening o .serverVerify flushPolicy) .process).2.connection =
      ⟨(after (o.process P pr .serverVerify)).channel, false, .default, flushPolicy⟩ :=
  processed_connection flushPolicy (process_ne_applicationData hf)

theorem window_of_default {s : Phase cs π} (h : s.connection.decrypted = .default) :
    s.window = [] := by
  rw [window, TlsConnection.window, h]
  exact DecryptedBufferInfo.window_of_isEmpty rfl _

theorem verify_genuine
    (h : ∀ f i, RecordReader.fetch o.channel.intake = .ok f i → ¬Smuggles cs f) :
    Genuine P pr (opening o .serverVerify flushPolicy) .process := by
  intro _
  refine ⟨fun e i hf => ?_, fun f i hf => ?_⟩
  · have hstep : step P pr (opening o .serverVerify flushPolicy) .process =
        (some (.error e),
          leftBy ⟨{ o.channel with intake := i }, false, .default, flushPolicy⟩ e) := by
      simp only [step, Opening.process_of_fetch_error hf, processed]
    rw [hstep]
    refine ⟨⟨?_, ?_, ?_, ?_⟩, rfl⟩
    · rw [transcript, leftBy_connection]
      rfl
    · rw [readState, leftBy_connection]
      rfl
    · rw [opened, leftBy_connection]
      rfl
    · rw [window_of_default (by rw [leftBy_connection]), window_of_default rfl]
  · have hconn := verify_connection P pr flushPolicy hf
    obtain ⟨hschedule, hok⟩ := Opening.process_of_fetch P pr hf
    have hreceives := receives P (verifyRecord P pr) (RecordReader.fetch_eq_ok hf).1
      (Opening.reading { o with channel.intake := i })
    obtain ⟨hauthentic, hplain⟩ := hreceives.transcript (keeps_verifyRecord P pr) (h f i hf)
    have hwindow : (step P pr (opening o .serverVerify flushPolicy) .process).2.window =
        (opening o .serverVerify flushPolicy).window := by
      rw [window_of_default (by rw [hconn]), window_of_default rfl]
    have hopened : (step P pr (opening o .serverVerify flushPolicy) .process).2.opened =
        (opening o .serverVerify flushPolicy).opened := by
      rw [opened, hconn]
      rfl
    refine ⟨fun plaintext ha => ⟨?_, fun hne => absurd hopened hne, fun hne => absurd hwindow hne⟩,
      fun hnot => ?_⟩
    · rw [transcript, transcript, hconn, hschedule]
      exact hauthentic plaintext ha
    · have hsame := hschedule.trans (hplain hnot)
      refine ⟨⟨?_, ?_, hopened, hwindow⟩, ?_⟩
      · rw [transcript, hconn, hsame]
        rfl
      · rw [readState, hconn, hsame]
        rfl
      · cases hp : o.process P pr .serverVerify with
        | error e o' => exact .inr ⟨e, by simp only [step, hp, processed]⟩
        | ok state o' =>
            obtain ⟨r, hr, -⟩ := hok _ _ hp
            rw [hr] at hreceives
            exact .inl (hreceives.verified (h f i hf) hnot)

theorem verify_not_genuine {f : RecordReader.Fetched} {i : Intake}
    (hf : RecordReader.fetch o.channel.intake = .ok f i) (hs : Smuggles cs f) :
    ¬Genuine P pr (opening o .serverVerify flushPolicy) .process := by
  intro h
  have hnot : ¬∃ plaintext, Authentic P o.channel.schedule.serverState.state f plaintext :=
    fun ha => by cases hs.1.symm.trans (Authentic.contentType ha)
  have hunchanged := ((h rfl).2 f i hf).2 hnot
  obtain ⟨m, w, hw, hreceived⟩ := @received_smuggled cs _ P (verifyRecord P pr) f
    (RecordReader.fetch_eq_ok hf).1 hs (Opening.reading { o with channel.intake := i })
  obtain ⟨hschedule, -⟩ := Opening.process_of_fetch P pr hf
  rw [hreceived, keeps_verifyRecord P pr (.handshake m) _] at hschedule
  have htranscript := hunchanged.1.transcript
  rw [transcript, verify_connection P pr flushPolicy hf, hschedule] at htranscript
  exact hw (List.append_right_eq_self.mp htranscript)

end Verify

section Turn

variable {c : TlsConnection cs} (hc : c.opened ∧ c.decrypted.isEmpty)
include hc

theorem awaits_turn : (connected c : Phase cs π).awaits .turn := by
  simpa [awaits] using hc

variable (P pr) in
theorem step_turn : step P pr (connected c) .turn =
    answered (fun _ => .done) (c.readApplicationData P) := if_pos hc

variable (P pr) in
/-- What a turn that took a record leaves is what handling the record left. -/
theorem turn_connection {f : RecordReader.Fetched} {i : Intake}
    (hf : RecordReader.fetch c.channel.intake = .ok f i) :
    (step P pr (connected c) .turn).2.connection =
      TlsConnection.putHandling { c with channel.intake := i }
        (after (received P (handler f.start) f
          (TlsConnection.handling { c with channel.intake := i }))) := by
  rw [step_turn P pr hc, answered_connection, TlsConnection.readApplicationData_of_fetch hf,
    after_onPart]

theorem turn_window (i : Intake) :
    (connected c : Phase cs π).window =
      (TlsConnection.handling { c with channel.intake := i }).captured.window :=
  (DecryptedBufferInfo.window_of_isEmpty hc.2 _).trans
    (DecryptedBufferInfo.window_of_isEmpty hc.2 _).symm

variable (P pr) in
theorem turn_connection_error {e : Stop} {i : Intake}
    (hf : RecordReader.fetch c.channel.intake = .error e i) :
    (step P pr (connected c) .turn).2.connection = { c with channel.intake := i } := by
  rw [step_turn P pr hc, answered_connection]
  exact congrArg after (TlsConnection.readApplicationData_of_fetch_error hf)

theorem turn_genuine (h : ∀ f i, RecordReader.fetch c.channel.intake = .ok f i →
    ¬Smuggles cs f ∧ ¬SaysGoodbye f) : Genuine P pr (connected c) .turn := by
  intro _
  refine ⟨fun e i hf => ?_, fun f i hf => ?_⟩
  · have hconn := turn_connection_error P pr hc hf
    refine ⟨⟨?_, ?_, ?_, ?_⟩, ?_⟩
    · rw [transcript, hconn]
      rfl
    · rw [readState, hconn]
      rfl
    · rw [opened, hconn]
      rfl
    · rw [window, hconn, turn_window hc i]
      rfl
    · rw [step_turn P pr hc]
      exact congrArg (fun r => (answered (fun _ => .done) r : _ × Phase cs π).1)
        (TlsConnection.readApplicationData_of_fetch_error hf)
  · have hconn := turn_connection P pr hc hf
    have hreceives := receives P (handler f.start) (RecordReader.fetch_eq_ok hf).1
      (TlsConnection.handling { c with channel.intake := i })
    obtain ⟨hs, hg⟩ := h f i hf
    obtain ⟨habsorbs, hschedule⟩ := hreceives.transcript (fun _ => keeps_onCaptured _) hs
    obtain ⟨htakes, hcaptured⟩ := hreceives.handled hs hg
    refine ⟨fun plaintext ha => ⟨?_, ?_, ?_⟩, fun hnot => ⟨⟨?_, ?_, ?_, ?_⟩, .inr ?_⟩⟩
    · rw [transcript, transcript, hconn]
      exact habsorbs plaintext ha
    · rw [opened, opened, hconn]
      exact (htakes plaintext ha).isOpen
    · rw [turn_window hc i, window, hconn]
      exact (htakes plaintext ha).window
    · rw [transcript, hconn]
      exact congrArg ReadKeySchedule.transcriptHash (hschedule hnot)
    · rw [readState, hconn]
      exact congrArg ReadKeySchedule.state (hschedule hnot)
    · rw [opened, hconn]
      exact congrArg Handling.isOpen (hcaptured hnot).1
    · rw [turn_window hc i, window, hconn]
      exact congrArg Handling.window (hcaptured hnot).1
    · obtain ⟨-, e, r, hr⟩ := hcaptured hnot
      refine ⟨e, ?_⟩
      have hread := (TlsConnection.readApplicationData_of_fetch hf).trans (onPart_of_error hr)
      rw [step_turn P pr hc]
      exact congrArg (fun r => (answered (fun _ => .done) r : _ × Phase cs π).1) hread

theorem turn_not_genuine {f : RecordReader.Fetched} {i : Intake}
    (hf : RecordReader.fetch c.channel.intake = .ok f i) (h : Smuggles cs f ∨ SaysGoodbye f) :
    ¬Genuine P pr (connected c) .turn := by
  intro hgenuine
  have hnot : ¬∃ plaintext, Authentic P c.channel.schedule.serverState.state f plaintext := by
    intro ha
    rcases h with hs | hg
    · cases hs.1.symm.trans (Authentic.contentType ha)
    · cases hg.1.symm.trans (Authentic.contentType ha)
  have hunchanged := (((hgenuine (awaits_turn hc)).2 f i hf).2 hnot).1
  have hconn := turn_connection P pr hc hf
  have hlen := (RecordReader.fetch_eq_ok hf).1
  rcases h with hs | ⟨hct, a, ha, hclose⟩
  · obtain ⟨m, w, hw, hreceived⟩ := @received_smuggled cs _ P (handler f.start) f hlen hs
      (TlsConnection.handling { c with channel.intake := i })
    have hgrown : (after (received P (handler f.start) f
        (TlsConnection.handling { c with channel.intake := i }))).schedule.transcriptHash =
        c.channel.schedule.serverState.transcriptHash ++ w := by
      rw [hreceived]
      exact congrArg ReadKeySchedule.transcriptHash
        (keeps_onCaptured (Handling.handle f.start (.handshake m)) _)
    have htranscript := hunchanged.transcript
    rw [transcript, hconn] at htranscript
    exact hw (List.append_right_eq_self.mp (hgrown.symm.trans htranscript))
  · have hclosed : (after (received P (handler f.start) f
        (TlsConnection.handling { c with channel.intake := i }))).captured.isOpen = false := by
      obtain ⟨e, hcall⟩ := @handler_alert cs f.start
        (TlsConnection.handling { c with channel.intake := i }) a
      rw [received_alert hlen hct ha, hcall, if_pos hclose]
      rfl
    have hopened := hunchanged.opened
    rw [opened, hconn] at hopened
    cases (hclosed.symm.trans hopened).trans hc.1

end Turn

theorem awaits_cases {s : Phase cs π} {call : Call} (h : s.awaits call) :
    (∃ o flushPolicy, s = opening o .serverVerify flushPolicy ∧ call = .process) ∨
      ∃ c, s = connected c ∧ call = .turn ∧ c.opened ∧ c.decrypted.isEmpty := by
  unfold awaits at h
  split at h
  next o flushPolicy => exact .inl ⟨o, flushPolicy, rfl, rfl⟩
  next c => exact .inr ⟨c, rfl, rfl, by simpa using h⟩
  next => cases h

/-- A step is genuine exactly when the record it takes is not an injected one. -/
theorem genuine_iff (s : Phase cs π) (call : Call) : Genuine P pr s call ↔ ¬s.Injects call := by
  constructor
  · rintro hgenuine ⟨hawaits, f, i, hf, hinjected⟩
    obtain ⟨o, flushPolicy, rfl, rfl⟩ | ⟨c, rfl, rfl, hc⟩ := awaits_cases hawaits
    · rcases hinjected with hs | ⟨hopen, -⟩
      · exact verify_not_genuine hf hs hgenuine
      · cases hopen
    · exact turn_not_genuine hc hf (hinjected.imp_right And.right) hgenuine
  · intro hnot hawaits
    obtain ⟨o, flushPolicy, rfl, rfl⟩ | ⟨c, rfl, rfl, hc⟩ := awaits_cases hawaits
    · exact verify_genuine (fun f i hf hs => hnot ⟨rfl, f, i, hf, .inl hs⟩) rfl
    · exact turn_genuine hc (fun f i hf => ⟨fun hs => hnot ⟨hawaits, f, i, hf, .inl hs⟩,
        fun hg => hnot ⟨hawaits, f, i, hf, .inr ⟨hc.1, hg⟩⟩⟩) hawaits

end Phase

namespace TlsConnection

/-- Nothing about reading has changed. -/
structure SameInput (c c' : TlsConnection cs) : Prop where
  channel : Channel.SameInput c.channel c'.channel
  opened : c'.opened = c.opened
  decrypted : c'.decrypted = c.decrypted

instance : Std.Refl (@SameInput cs) :=
  ⟨fun c => ⟨Std.Refl.refl (r := Channel.SameInput) c.channel, rfl, rfl⟩⟩

instance : IsTrans (TlsConnection cs) SameInput where
  trans c _ c' h h' := ⟨IsTrans.trans c.channel _ c'.channel h.channel h'.channel,
    h'.opened.trans h.opened, h'.decrypted.trans h.decrypted⟩

theorem SameInput.window {c c' : TlsConnection cs} (h : SameInput c c') : c'.window = c.window := by
  rw [TlsConnection.window, h.decrypted, h.channel.intake]
  rfl

theorem keeps_onChannel {α : Type} {x : Channel.M cs α} (hx : Keeps Channel.SameInput x) :
    Keeps SameInput (onChannel x) := hx.onPart fun _ _ h => ⟨h, rfl, rfl⟩

variable (P) in
theorem keeps_flush : Keeps SameInput (flush P) := by
  refine Keeps.get.bind fun c => ?_
  split
  · refine (keeps_onChannel (Channel.keeps_closeRecord P)).bind fun slice =>
      (keeps_onChannel (Channel.keeps_transmit slice)).bind fun _ => ?_
    split
    · exact keeps_onChannel Channel.keeps_flushTransport
    · exact .pure _
  · exact .pure _

variable (P) in
theorem keeps_startRecord : Keeps SameInput (startRecord P) := by
  refine Keeps.get.bind fun c => ?_
  split
  · exact (keeps_flush P).bind fun _ => keeps_onChannel (Channel.keeps_onBuffer _)
  · exact .pure _

variable (P) in
theorem keeps_write (buf : Bytes) : Keeps SameInput (write P buf) := by
  refine Keeps.get.bind fun c => ?_
  split
  · refine (keeps_startRecord P).bind fun _ => (keeps_onChannel (Channel.keeps_onBuffer _)).bind
      fun n => Keeps.get.bind fun _ => (Keeps.fromResult _).bind fun full => ?_
    split
    · exact (keeps_flush P).bind fun _ => .pure _
    · exact .pure _
  · exact .throw _

variable (P) in
theorem keeps_closeInternal : Keeps SameInput (closeInternal P) :=
  (keeps_flush P).bind fun _ => Keeps.get.bind fun _ =>
    (keeps_onChannel (Channel.keeps_writeRecord_alert P _ _)).bind fun slice =>
      (keeps_onChannel (Channel.keeps_transmit slice)).bind fun _ =>
        keeps_onChannel Channel.keeps_flushTransport

/-- A read buffer shows the window. -/
theorem createReadBuffer_eq_ok {c c' : TlsConnection cs} {bytes : Bytes}
    (h : createReadBuffer c = .ok bytes c') : bytes = c.window ∧ c' = c := by
  simp only [createReadBuffer, get_bind_apply, fromResult_eq_ok,
    DecryptedBufferInfo.createReadBuffer] at h
  obtain ⟨h, rfl⟩ := h
  split at h
  · cases h
    exact ⟨rfl, rfl⟩
  · cases h

theorem pop_spec (count : Nat) (c : TlsConnection cs) :
    (∃ n, (after (pop count c)).window = c.window.drop n) ∧
      ∀ bytes c', pop count c = .ok bytes c' → bytes <+: c.window := by
  cases hread : createReadBuffer c with
  | error e c' =>
      simp only [createReadBuffer, get_bind_apply, fromResult_eq_error] at hread
      have hpop : pop count c = .error e c := bind_of_error (by simp [createReadBuffer, hread])
      rw [hpop]
      exact ⟨⟨0, rfl⟩, fun _ _ h => by cases h⟩
  | ok data c' =>
      obtain ⟨rfl, rfl⟩ := createReadBuffer_eq_ok hread
      have hpop : pop count c' = .ok (c'.window.take count)
          { c' with decrypted := c'.decrypted.pop count } := bind_of_ok hread
      rw [hpop]
      refine ⟨⟨count, DecryptedBufferInfo.window_pop _ _ _⟩, fun bytes c'' h => ?_⟩
      cases h
      exact List.take_prefix _ _

end TlsConnection

namespace Phase

/-- The call takes an authentic record that holds this application data. -/
def Supplies (P : Primitives cs) (s : Phase cs π) (call : Call) (content : Bytes) : Prop :=
  s.awaits call ∧ ∃ f i plaintext, RecordReader.fetch s.intake = .ok f i ∧
    Authentic P s.readState f plaintext ∧ Holds plaintext .applicationData content

theorem window_of_sameInput {c c' : TlsConnection cs} {s' : Phase cs π}
    (h : TlsConnection.SameInput c c') (hs : s'.connection = c') :
    ∃ n, s'.window = (connected c : Phase cs π).window.drop n :=
  ⟨0, by rw [window, hs, h.window]; rfl⟩

/-- The window only shrinks from the front, unless authentic application data fills it. -/
theorem step_window (s : Phase cs π) (call : Call) :
    (∃ n, (step P pr s call).2.window = s.window.drop n) ∨
      Supplies P s call (step P pr s call).2.window := by
  cases s with
  | gone c => cases call <;> exact .inl ⟨0, rfl⟩
  | opening o state flushPolicy =>
      refine .inl ⟨0, ?_⟩
      cases call with
      | process =>
          have hempty : (step P pr (opening o state flushPolicy) .process).2.window = [] := by
            refine window_of_default ?_
            simp only [step, processed]
            split
            · rfl
            · rfl
            · rw [leftBy_connection]
          rw [hempty, window_of_default rfl]
          rfl
      | turn => rfl
      | peek => rfl
      | pop count => rfl
      | write buf => rfl
      | flush => rfl
      | close => rfl
  | connected c =>
      cases call with
      | process => exact .inl ⟨0, rfl⟩
      | peek =>
          refine .inl ⟨0, ?_⟩
          have hkept : Keeps (fun c c' : TlsConnection cs => c'.window = c.window)
              TlsConnection.createReadBuffer := fun c => by
            simp only [TlsConnection.createReadBuffer, get_bind_apply]
            cases c.decrypted.createReadBuffer c.channel.intake.reader.buf <;> rfl
          rw [window, step, answered_connection]
          exact hkept c
      | pop count =>
          obtain ⟨n, hn⟩ := (TlsConnection.pop_spec count c).1
          refine .inl ⟨n, ?_⟩
          rw [window, step, answered_connection]
          exact hn
      | write buf =>
          exact .inl (window_of_sameInput (TlsConnection.keeps_write P buf c) (answered_connection _ _))
      | flush =>
          exact .inl (window_of_sameInput (TlsConnection.keeps_flush P c) (answered_connection _ _))
      | close => exact .inl (window_of_sameInput (TlsConnection.keeps_closeInternal P c) rfl)
      | turn =>
          by_cases hc : c.opened ∧ c.decrypted.isEmpty
          · cases hf : RecordReader.fetch c.channel.intake with
            | error e i =>
                refine .inl ⟨0, ?_⟩
                rw [window, turn_connection_error P pr hc hf]
                exact (turn_window hc i).symm
            | ok f i =>
                have hconn := turn_connection P pr hc hf
                have hwindow := (receives P (handler f.start) (RecordReader.fetch_eq_ok hf).1
                  (TlsConnection.handling { c with channel.intake := i })).window
                rw [window, hconn]
                rcases hwindow with hsame | ⟨plaintext, hauth, hholds⟩
                · exact .inl ⟨0, hsame.trans (turn_window hc i).symm⟩
                · exact .inr ⟨awaits_turn hc, f, i, plaintext, hf, hauth, hholds⟩
          · have hstep : step P pr (connected c) .turn = (none, connected c) := if_neg hc
            rw [hstep]
            exact .inl ⟨0, rfl⟩

theorem answered_eq_ok {α : Type} {answer : α → Answer} {r : EStateM.Result Stop (TlsConnection cs) α}
    {a : Answer} (h : (answered answer r : _ × Phase cs π).1 = some (.ok a)) :
    ∃ x c', r = .ok x c' ∧ answer x = a := by
  cases r with
  | ok x c' =>
      cases h
      exact ⟨x, c', rfl, rfl⟩
  | error e c' => cases h

/-- Only the front of the window is handed out. -/
theorem step_bytes {s : Phase cs π} {call : Call} {bytes : Bytes}
    (h : (step P pr s call).1 = some (.ok (.bytes bytes))) : bytes <+: s.window := by
  cases s with
  | gone c => cases call <;> cases h
  | opening o state flushPolicy =>
      cases call with
      | process =>
          simp only [step, processed] at h
          split at h <;> cases h
      | turn => cases h
      | peek => cases h
      | pop count => cases h
      | write buf => cases h
      | flush => cases h
      | close => cases h
  | connected c =>
      cases call with
      | process => cases h
      | peek =>
          obtain ⟨_, _, hread, heq⟩ := answered_eq_ok h
          cases heq
          rw [(TlsConnection.createReadBuffer_eq_ok hread).1]
          exact List.prefix_rfl
      | pop count =>
          obtain ⟨_, c', hpop, heq⟩ := answered_eq_ok h
          cases heq
          exact (TlsConnection.pop_spec count c).2 _ _ hpop
      | turn =>
          by_cases hc : c.opened ∧ c.decrypted.isEmpty
          · rw [step_turn P pr hc] at h
            obtain ⟨_, _, -, heq⟩ := answered_eq_ok h
            cases heq
          · rw [show step P pr (connected c) .turn = (none, connected c) from if_neg hc] at h
            cases h
      | write buf =>
          obtain ⟨_, _, -, heq⟩ := answered_eq_ok h
          cases heq
      | flush =>
          obtain ⟨_, _, -, heq⟩ := answered_eq_ok h
          cases heq
      | close =>
          obtain ⟨_, _, -, heq⟩ := @answered_eq_ok cs π _ _ _ _ h
          cases heq

end Phase

/-- Some earlier record was authentic and held these bytes as application data. -/
def Vouched (P : Primitives cs) (h : List (ClientEvent cs π)) (bytes : Bytes) : Prop :=
  bytes = [] ∨ ∃ e ∈ h, ∃ content, Phase.Supplies P e.pre e.call content ∧ bytes <:+: content

/-- Every byte handed out came out of an authentic record taken before. -/
def Delivered (P : Primitives cs) (h : List (ClientEvent cs π)) : Prop :=
  ∀ newer e older, h = newer ++ e :: older →
    ∀ bytes, e.out = some (.ok (.bytes bytes)) → Vouched P older bytes

theorem Vouched.part {h : List (ClientEvent cs π)} {bytes bytes' : Bytes} (hv : Vouched P h bytes)
    (hb : bytes' <:+: bytes) : Vouched P h bytes' := by
  rcases hv with rfl | ⟨e, he, content, hs, hin⟩
  · exact .inl (List.infix_nil.mp hb)
  · exact .inr ⟨e, he, content, hs, hb.trans hin⟩

theorem Vouched.later {h : List (ClientEvent cs π)} {bytes : Bytes} (hv : Vouched P h bytes)
    (e : ClientEvent cs π) : Vouched P (e :: h) bytes :=
  hv.imp_right fun ⟨e', he, rest⟩ => ⟨e', List.mem_cons_of_mem e he, rest⟩

section Run

variable {o : Opening cs π} {flushPolicy : FlushPolicy} {h : List (ClientEvent cs π)} {s : Phase cs π}

theorem window_vouched
    (hr : Reaches (Phase.step P pr) (.opening o .serverVerify flushPolicy) h s) :
    Vouched P h s.window := by
  refine hr.invariant (fun h s => Vouched P h s.window) ?_ ?_
  · exact .inl (Phase.window_of_default rfl)
  · intro h s call _ hv
    rcases @Phase.step_window _ _ P pr s call with ⟨n, hn⟩ | hs
    · rw [hn]
      exact (hv.part (List.drop_suffix n _).isInfix).later _
    · exact .inr ⟨_, List.mem_cons_self, _, hs, List.infix_rfl⟩

theorem delivered (hr : Reaches (Phase.step P pr) (.opening o .serverVerify flushPolicy) h s) :
    Delivered P h := by
  rintro newer e older rfl bytes hout
  obtain ⟨holder, he, -⟩ := hr.split
  exact (window_vouched holder).part (Phase.step_bytes (he.symm.trans hout)).isInfix

/-- From the moment the handshake keys are installed, only authentic records count, exactly in
the runs in which no injected record is taken. -/
theorem only_authentic_records_count_iff
    (hr : Reaches (Phase.step P pr) (.opening o .serverVerify flushPolicy) h s) :
    ((∀ e ∈ h, Phase.Genuine P pr e.pre e.call) ∧ Delivered P h) ↔
      ∀ e ∈ h, ¬e.pre.Injects e.call := by
  simp only [Phase.genuine_iff, and_iff_left (delivered hr)]

end Run

namespace Peer

/-- Two turns open the connection, one more takes the record behind the server's flight. -/
def run (behind : Bytes) : List (ClientEvent Peer.cs Unit) × Phase Peer.cs Unit :=
  runAll (Phase.step suite (provider true))
    ([], .opening (opening (flight encryptedExtensions ++ behind)) .serverVerify .relaxed)
    [.process, .process, .turn, .peek]

theorem run_reaches (behind : Bytes) : Reaches (Phase.step suite (provider true))
    (.opening (opening (flight encryptedExtensions ++ behind)) .serverVerify .relaxed)
    (run behind).1 (run behind).2 := by
  unfold run
  exact runAll_reaches .nil _

/-- Application data, protected with the keys of the opened connection. -/
def greeting : Bytes := sealed (run []).2.readState .applicationData [104, 105]

/-- A `CloseNotify` without protection. -/
def goodbye : Bytes := plain .alert [1, 0]

theorem greeting_taken : (∀ e ∈ (run greeting).1, ¬e.pre.Injects e.call) ∧
    (run greeting).1.head?.map (·.out) = some (some (.ok (.bytes [104, 105]))) := by
  decide +kernel

theorem goodbye_taken : (∃ e ∈ (run goodbye).1, e.pre.Injects e.call) ∧
    (run goodbye).1.tail.head?.map (·.out) = some (some (.error (.err .connectionClosed))) := by
  decide +kernel

end Peer

theorem greeting_counts :
    (∀ e ∈ (Peer.run Peer.greeting).1, ¬e.pre.Injects e.call) ∧
      (∀ e ∈ (Peer.run Peer.greeting).1, Phase.Genuine Peer.suite (Peer.provider true) e.pre e.call) ∧
      Delivered Peer.suite (Peer.run Peer.greeting).1 :=
  ⟨Peer.greeting_taken.1,
    (only_authentic_records_count_iff (Peer.run_reaches Peer.greeting)).mpr Peer.greeting_taken.1⟩

/-- Anyone on the network closes the connection: the record is not authenticated, and yet the
client is told that the connection is closed. -/
theorem unprotected_goodbye_counts :
    (Peer.run Peer.goodbye).1.tail.head?.map (·.out) = some (some (.error (.err .connectionClosed))) ∧
      ¬∀ e ∈ (Peer.run Peer.goodbye).1,
        Phase.Genuine Peer.suite (Peer.provider true) e.pre e.call := by
  refine ⟨Peer.goodbye_taken.2, fun hall => ?_⟩
  obtain ⟨e, he, hinjects⟩ := Peer.goodbye_taken.1
  exact (Phase.genuine_iff e.pre e.call).mp (hall e he) hinjects

end GatoPskTls.Client
