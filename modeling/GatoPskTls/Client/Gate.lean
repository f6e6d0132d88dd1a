import GatoPskTls.Client.Chunking
import GatoPskTls.Client.Progress

/-!
# The gate of the client

Whatever the peer and the application do, no application data is taken or handed out before `open`
has verified a Finished of the server, nor after the connection was closed by the peer.
-/
namespace GatoPskTls.Client

open Stateful History

variable {cs : TlsCipherSuite} {π : Type} {C : P256} {P : Primitives cs} {pr : CryptoProvider π}
  {setHostnameVerification : Bytes → EStateM Stop π Unit}

/-- `ServerVerify` is left for a state of the client's flight, with a Finished that was verified. -/
def Verifying.Sound (v : Verifying π) : Prop :=
  v.state ≠ .applicationData ∧ (v.state ≠ .serverVerify → .finished ∈ v.checks)

namespace Verifying

theorem sound_checkWith (check : Check) (verify : EStateM Stop π Unit) :
    Keeps (fun v v' : Verifying π => v.Sound → v'.Sound) (checkWith pr check verify) := by
  intro v hv
  unfold checkWith
  split
  · exact hv
  · split
    · exact ⟨hv.1, fun hstate => List.mem_cons_of_mem _ (hv.2 hstate)⟩
    · exact hv

theorem sound_storeRequest (request : CertificateRequestRef) :
    Keeps (fun v v' : Verifying π => v.Sound → v'.Sound) (storeRequest request) := by
  intro v hv
  unfold storeRequest
  cases (CertificateRequest.tryFrom request).mapError Stop.err <;> exact hv

theorem sound_finish (transcript : Bytes) :
    Keeps (fun v v' : Verifying π => v.Sound → v'.Sound) (finish transcript) := by
  intro v hv
  unfold finish
  rw [modify_apply, after_ok]
  split <;> exact ⟨State.noConfusion, fun _ => List.mem_cons_self⟩

end Verifying

/-- The callback of `process_server_verify` keeps to it. -/
def Reading.Sound (r r' : Reading cs (Verifying π)) : Prop := r.captured.Sound → r'.captured.Sound

instance : Std.Refl (@Reading.Sound cs π) := ⟨fun _ h => h⟩

instance : IsTrans (Reading cs (Verifying π)) Reading.Sound := ⟨fun _ _ _ h h' hr => h' (h hr)⟩

theorem sound_decryptRecord (record : ServerRecord cs) :
    Keeps Reading.Sound (decryptRecord P (verifyRecord P pr) record) := by
  have hcaptured : ∀ {x : EStateM Stop (Verifying π) Unit},
      Keeps (fun v v' : Verifying π => v.Sound → v'.Sound) x →
      Keeps (@Reading.Sound cs π) (Reading.onCaptured x) := fun h => h.onPart fun _ _ h => h
  have hread : ∀ buf, Keeps (@Reading.Sound cs π) (Reading.readMessage P buf) := by
    intro buf r hr
    unfold Reading.readMessage
    split
    · exact hr
    · exact hr
  refine keeps_decryptRecord hread ?_ (fun record => ?_) record
  · exact Keeps.onPart (R := fun _ _ => True) (fun _ => trivial) fun _ _ _ h => h
  · exact keeps_verifyRecord_of (fun check verify => hcaptured (Verifying.sound_checkWith check verify))
      (fun request => hcaptured (Verifying.sound_storeRequest request))
      (fun transcript => hcaptured (Verifying.sound_finish transcript)) record

namespace Opening

variable {o o' : Opening cs π} {state state' : State}

/-- A turn in `ServerVerify` leaves it with a verified Finished only. -/
theorem process_serverVerify_sound (h : process P pr .serverVerify o = .ok state' o') :
    state' ≠ .applicationData ∧ (state' ≠ .serverVerify → .finished ∈ o'.checks) := by
  obtain ⟨⟨start, record⟩, o₁, -, h⟩ := bind_eq_ok.mp h
  obtain ⟨r, hverify, rfl⟩ := onPart_eq_ok.mp (handleProcessingError_eq_ok h)
  obtain ⟨_, r₁, hdecrypt, hstate⟩ := bind_eq_ok.mp hverify
  cases hstate
  have hstart : (reading o₁).captured.Sound := ⟨State.noConfusion, fun h => absurd rfl h⟩
  exact (sound_decryptRecord record).ok hdecrypt hstart

end Opening

theorem Greeting.processServerHello_state {record : ServerRecord cs} {g g' : Greeting cs C}
    {state : State} (h : Greeting.processServerHello P record g = .ok state g') :
    state = .serverVerify := by
  cases record with
  | changeCipherSpec => cases h
  | alert alert => cases h
  | applicationData data => cases h
  | handshake message =>
      cases message with
      | serverHello hello =>
          rw [Greeting.processServerHello, get_bind_apply, set_bind_apply] at h
          cases hsecret : g.secret with
          | none =>
              simp only [hsecret] at h
              cases h
          | some secret =>
              cases hshared : calculateSharedSecret C hello secret with
              | none =>
                  simp only [hsecret, hshared] at h
                  cases h
              | some shared =>
                  simp only [hsecret, hshared] at h
                  obtain ⟨_, g₁, -, h⟩ := bind_eq_ok.mp h
                  cases h
                  rfl
      | _ => cases h

namespace Establishing

variable {config : TlsConfig} {random : GenericArray 32} {secret : C.Secret}
  {e e' : Establishing cs π C} {stage stage' : Stage}

/-- Behind `ServerVerify` a Finished of the server has been verified. -/
def Verified (e : Establishing cs π C) (stage : Stage) : Prop :=
  ∀ state, stage = .later state → state ≠ .serverVerify → .finished ∈ e.opening.checks

theorem process_verified (he : e.Verified stage)
    (h : process P pr config random secret stage e = .ok stage' e') :
    e'.Verified stage' ∧ (stage' = .later .applicationData → .finished ∈ e.opening.checks) := by
  cases stage with
  | clientHello =>
      obtain ⟨tx, e₁, -, h⟩ := bind_eq_ok.mp h
      obtain ⟨_, e₂, -, h⟩ := bind_eq_ok.mp h
      cases h
      exact ⟨fun _ h => Stage.noConfusion h, Stage.noConfusion⟩
  | serverHello =>
      obtain ⟨read, e₁, -, h⟩ := bind_eq_ok.mp h
      obtain ⟨state, e₂, hhello, h⟩ := bind_eq_ok.mp h
      cases h
      obtain ⟨g, hgreeting, -⟩ := onPart_eq_ok.mp (handleProcessingError_eq_ok hhello)
      obtain rfl := Greeting.processServerHello_state hgreeting
      refine ⟨fun state h hstate => ?_, fun h => ?_⟩
      · cases h
        exact absurd rfl hstate
      · cases h
  | later state =>
      obtain ⟨next, e₁, hprocess, h⟩ := bind_eq_ok.mp h
      cases h
      obtain ⟨o, hopening, rfl⟩ := onPart_eq_ok.mp hprocess
      by_cases hstate : state = .serverVerify
      · subst hstate
        obtain ⟨hopen, hfinished⟩ := Opening.process_serverVerify_sound hopening
        refine ⟨fun state h hstate => ?_, fun h => ?_⟩
        · cases h
          exact hfinished hstate
        · cases h
          exact absurd rfl hopen
      · have hbefore := he state rfl hstate
        have hsame : o.checks = e.opening.checks := ((Opening.process_quiet hstate).ok hopening).2
        refine ⟨fun _ _ _ => ?_, fun _ => hbefore⟩
        rw [hsame]
        exact hbefore

end Establishing

namespace TlsConnection

/-- The connection is not opened. -/
def Unopened (c c' : TlsConnection cs) : Prop := c'.opened → c.opened

instance : Std.Refl (@Unopened cs) := ⟨fun _ h => h⟩

instance : IsTrans (TlsConnection cs) Unopened := ⟨fun _ _ _ h h' hc => h (h' hc)⟩

theorem unopened_onChannel {α : Type} (x : Channel.M cs α) : Keeps Unopened (onChannel x) :=
  Keeps.onPart (R := fun _ _ => True) (fun _ => trivial) fun _ _ _ h => h

theorem unopened_readApplicationData : Keeps Unopened (readApplicationData P) := by
  refine (unopened_onChannel _).bind fun read => ?_
  have hkeeps : Keeps (fun r r' : Reading cs Handling => r'.captured.isOpen → r.captured.isOpen)
      (decryptRecord P (handler read.1) read.2) := by
    intro r hopen
    have hclears := clears_decryptRecord P read.1 read.2 r
    cases hr : decryptRecord P (handler read.1) read.2 r with
    | ok a r' =>
        rw [hr] at hclears hopen
        exact Eq.trans hclears.symm hopen
    | error e r' =>
        rw [hr] at hclears hopen
        rcases hclears with hsame | ⟨hclosed, -⟩
        · exact hsame.symm.trans hopen
        · exact absurd (hclosed.symm.trans hopen) Bool.false_ne_true
  exact hkeeps.onPart fun _ _ h => h

theorem unopened_fillWindow (n : Nat) : Keeps Unopened (fillWindow P n) := by
  induction n with
  | zero => exact .pure _
  | succ n ih =>
      refine Keeps.get.bind fun c => ?_
      split
      · exact unopened_readApplicationData.bind fun _ => ih
      · exact .pure _

theorem unopened_createReadBuffer : Keeps Unopened (@createReadBuffer cs) :=
  Keeps.get.bind fun _ => .fromResult _

theorem unopened_readBuffered : Keeps Unopened (readBuffered P) := by
  refine Keeps.get.bind fun c => ?_
  split
  · exact (unopened_fillWindow _).bind fun _ => unopened_createReadBuffer
  · exact .throw _

theorem unopened_lend (data : Bytes) (calls : List BufferCall) (release : Release) :
    Keeps Unopened (@lend cs data calls release) :=
  Keeps.bind (.modify fun _ h => h) fun _ => .pure _

theorem unopened_runCall (call : ReadCall) : Keeps Unopened (runCall P call) := by
  cases call with
  | read len =>
      refine Keeps.bind ?_ fun _ => .pure _
      unfold read
      split
      · exact .pure _
      · refine unopened_readBuffered.bind fun _ => unopened_createReadBuffer.bind fun _ => ?_
        exact Keeps.bind (.modify fun _ h => h) fun _ => .pure _
  | readBuffered calls release => exact unopened_readBuffered.bind fun _ => unopened_lend _ _ _
  | fillBuf => exact unopened_readBuffered.bind fun _ => unopened_lend _ _ _
  | consume amt => exact unopened_createReadBuffer.bind fun _ => unopened_lend _ _ _

theorem unopened_runWrite (call : WriteCall) : Keeps Unopened (runWrite P call) := by
  intro c
  rw [runWrite_eq, Threads.Part.within, after_onPart]
  exact fun h => h

variable {c c' : TlsConnection cs}

theorem opened_of_readBuffered {data : Bytes} (h : readBuffered P c = .ok data c') : c.opened := by
  unfold readBuffered at h
  rw [get_bind_apply] at h
  split at h
  · assumption
  · cases h

theorem opened_of_write {buf : Bytes} {n : Nat} (h : write P buf c = .ok n c') : c.opened := by
  unfold write at h
  rw [get_bind_apply] at h
  split at h
  · assumption
  · cases h

end TlsConnection

/-- The call passes application data on when it succeeds. `consume` returns nothing. -/
def LifeCall.carries : LifeCall π C → Bool
  | .write (.write _) => true
  | .read (.read len) => len != 0
  | .read (.readBuffered _ _) => true
  | .read .fillBuf => true
  | _ => false

/-- Application data has passed. -/
def LifeEvent.Carries (e : LifeEvent cs π C) : Prop :=
  e.call.carries ∧ ∃ answer, e.out = some (.ok answer)

/-- `open` is done, and the Finished of the server it has got was verified. -/
def LifeEvent.Completes (e : LifeEvent cs π C) : Prop :=
  ∃ a, e.pre = .opening a ∧ e.call = .turn ∧ .finished ∈ a.establishing.opening.checks ∧
    e.out = some (.ok (.stage (.later .applicationData)))

namespace Life

variable {life : Life cs π C} {c : TlsConnection cs}

def isOpen : Life cs π C → Bool
  | opening a => a.opened
  | connected c => c.opened
  | gone _ => false

def Verified : Life cs π C → Prop
  | opening a => a.establishing.Verified a.stage
  | _ => True

theorem left_verified (e : Stop) : (left c e : Life cs π C).Verified := by
  cases e <;> exact trivial

theorem opened_of_left {e : Stop} (h : (left c e : Life cs π C).isOpen) : c.opened := by
  cases e with
  | panic => exact absurd h Bool.false_ne_true
  | err e => exact h
  | abandoned => exact h

theorem answered_verified {α : Type} (answer : α → LifeAnswer)
    (r : EStateM.Result Stop (TlsConnection cs) α) : (answered answer r : _ × Life cs π C).2.Verified := by
  cases r with
  | ok a c => exact trivial
  | error e c => exact left_verified e

theorem opened_of_answered {α : Type} {answer : α → LifeAnswer} {x : TlsConnection.M cs α}
    (hx : Keeps TlsConnection.Unopened x) (h : (answered answer (x c) : _ × Life cs π C).2.isOpen) :
    c.opened := by
  have hkeeps := hx c
  cases hr : x c with
  | ok a c' =>
      rw [hr] at h hkeeps
      exact hkeeps h
  | error e c' =>
      rw [hr] at h hkeeps
      exact hkeeps (opened_of_left h)

theorem ok_of_answered {α : Type} {answer : α → LifeAnswer}
    {r : EStateM.Result Stop (TlsConnection cs) α} {reply : LifeAnswer}
    (h : (answered answer r : _ × Life cs π C).1 = some (.ok reply)) : ∃ a c', r = .ok a c' := by
  cases r with
  | ok a c => exact ⟨a, c, rfl⟩
  | error e c => cases h

theorem step_verified (call : LifeCall π C) (hlife : life.Verified) :
    (step P pr setHostnameVerification life call).2.Verified := by
  cases life with
  | gone c => cases call <;> exact trivial
  | opening a =>
      cases call with
      | turn =>
          simp only [step]
          cases hr : Establishing.process P pr a.config a.random a.secret a.stage a.establishing with
          | error e establishing => exact left_verified e
          | ok stage establishing =>
              simp only [turned]
              split
              · exact trivial
              · exact (Establishing.process_verified hlife hr).1
      | _ => exact hlife
  | connected c =>
      cases call with
      | «open» config random secret provider =>
          simp only [step]
          cases hostname pr setHostnameVerification config.serverName provider with
          | ok _ provider => exact fun _ h => Stage.noConfusion h
          | error e provider => exact left_verified e
      | read call => exact answered_verified _ _
      | write call => exact answered_verified _ _
      | _ => exact trivial

theorem step_opens (call : LifeCall π C) (hlife : life.Verified)
    (hopen : (step P pr setHostnameVerification life call).2.isOpen) :
    life.isOpen ∨
      LifeEvent.Completes ⟨life, call, (step P pr setHostnameVerification life call).1⟩ := by
  cases life with
  | gone c => cases call <;> exact .inl hopen
  | opening a =>
      cases call with
      | turn =>
          simp only [step] at hopen ⊢
          cases hr : Establishing.process P pr a.config a.random a.secret a.stage a.establishing with
          | error e establishing =>
              rw [hr] at hopen
              exact .inl (opened_of_left hopen)
          | ok stage establishing =>
              rw [hr] at hopen
              by_cases hstage : stage = .later .applicationData
              · subst hstage
                exact .inr ⟨a, rfl, rfl, (Establishing.process_verified hlife hr).2 rfl, rfl⟩
              · simp only [turned, if_neg hstage] at hopen
                exact .inl hopen
      | _ => exact .inl hopen
  | connected c =>
      refine .inl ?_
      cases call with
      | «open» config random secret provider =>
          simp only [step] at hopen
          cases hr : hostname pr setHostnameVerification config.serverName provider with
          | ok _ provider =>
              rw [hr] at hopen
              exact hopen
          | error e provider =>
              rw [hr] at hopen
              exact opened_of_left hopen
      | read call => exact opened_of_answered (TlsConnection.unopened_runCall call) hopen
      | write call => exact opened_of_answered (TlsConnection.unopened_runWrite call) hopen
      | close => exact absurd hopen Bool.false_ne_true
      | _ => exact hopen

theorem isOpen_of_carries {e : LifeEvent cs π C} (he : e.Carries)
    (hout : e.out = (step P pr setHostnameVerification e.pre e.call).1) : e.pre.isOpen := by
  obtain ⟨hcarries, answer, hanswer⟩ := he
  rcases e with ⟨life, call, out⟩
  dsimp only at hcarries hanswer hout ⊢
  subst hout
  cases life with
  | gone c => cases call <;> cases hanswer
  | opening a =>
      cases call with
      | turn => exact absurd hcarries Bool.false_ne_true
      | _ => cases hanswer
  | connected c =>
      cases call with
      | read call =>
          obtain ⟨served, c', hserved⟩ := ok_of_answered hanswer
          cases call with
          | read len =>
              obtain ⟨bytes, c₁, hread, -⟩ := bind_eq_ok.mp hserved
              unfold TlsConnection.read at hread
              rw [if_neg (by simpa [LifeCall.carries] using hcarries)] at hread
              obtain ⟨data, c₂, hbuffered, -⟩ := bind_eq_ok.mp hread
              exact TlsConnection.opened_of_readBuffered hbuffered
          | consume amt => exact absurd hcarries Bool.false_ne_true
          | _ =>
              obtain ⟨data, c₁, hbuffered, -⟩ := bind_eq_ok.mp hserved
              exact TlsConnection.opened_of_readBuffered hbuffered
      | write call =>
          obtain ⟨count, c', hwritten⟩ := ok_of_answered hanswer
          cases call with
          | write buf =>
              obtain ⟨n, c₁, hwrite, -⟩ := bind_eq_ok.mp hwritten
              exact TlsConnection.opened_of_write hwrite
          | flush => exact absurd hcarries Bool.false_ne_true
      | _ => exact absurd hcarries Bool.false_ne_true

end Life

/-- Application data passes only after an `open` that has verified the server's Finished, and only
as long as the connection has stayed open since. -/
theorem application_gate {transport : Incoming} {plan : List IoOutcome} {recordReadBuf : Bytes}
    {recordWriteBuf : WriteBuffer} {newer older : List (LifeEvent cs π C)} {e : LifeEvent cs π C}
    {life : Life cs π C}
    (hr : Reaches (Life.step P pr setHostnameVerification)
      (.new transport plan recordReadBuf recordWriteBuf) (newer ++ e :: older) life)
    (he : e.Carries) :
    ∃ later done earlier, older = later ++ done :: earlier ∧ LifeEvent.Completes done ∧
      ∀ x ∈ e :: later, x.pre.isOpen := by
  obtain ⟨hbefore, hout, -⟩ := hr.split
  have hopen := Life.isOpen_of_carries he hout
  have hnew : (Life.new transport plan recordReadBuf recordWriteBuf : Life cs π C).Verified := trivial
  obtain ⟨later, done, earlier, hsplit, hdone, hlater⟩ := hbefore.since Life.Verified
    (fun life => life.isOpen) LifeEvent.Completes hnew Bool.false_ne_true
    (fun _ call => Life.step_verified call) (fun _ call => Life.step_opens call) hopen
  exact ⟨later, done, earlier, hsplit, hdone, List.forall_mem_cons.mpr ⟨hopen, hlater⟩⟩

namespace Certified

theorem life_said : ∃ h : 3 < life.1.length, life.1[3].call.carries ∧
    life.1[3].out = some (.ok (.written (some 3))) := by decide +kernel

/-- The bytes written follow the events of `open`. -/
theorem life_gated : ∃ e, life.1[3]? = some e ∧
    ∃ later done earlier, life.1.drop 4 = later ++ done :: earlier ∧ LifeEvent.Completes done ∧
      ∀ x ∈ e :: later, x.pre.isOpen := by
  obtain ⟨hlen, hcarries, hout⟩ := life_said
  have hreaches := life_reaches
  rw [← List.take_append_drop 3 life.1, List.drop_eq_getElem_cons hlen] at hreaches
  exact ⟨_, List.getElem?_eq_getElem hlen, application_gate hreaches ⟨hcarries, _, hout⟩⟩

end Certified

end GatoPskTls.Client
