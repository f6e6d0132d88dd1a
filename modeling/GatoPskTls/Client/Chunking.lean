import GatoPskTls.RecordReaderChunks
import GatoPskTls.Client.Life
import GatoPskTls.Client.Schedule

/-!
# The transport's chunks cannot be seen

Two connections get the same bytes from the peer, cut in different places. Whatever is called, in
the handshake and after it, both give the same answers and send the same records.
-/
namespace GatoPskTls.Client

open Stateful History RecordReader

open Incoming (Delivers)

variable {cs : TlsCipherSuite} {π : Type} {C : P256} {α : Type}

namespace Inbound

structure Recut (i i' : Inbound cs) : Prop where
  intake : SameStream i.intake i'.intake
  schedule : i'.schedule = i.schedule

theorem simulates_read (P : Primitives cs) :
    Simulates Recut (GatoPskTls.Inbound.read P) (GatoPskTls.Inbound.read P) := by
  refine Simulates.bind ?_ fun fetched => Simulates.bind ?_ fun record => .pure _
  · exact simulates_fetch.onParts (fun _ _ h => h.intake) fun _ _ _ _ h hp => ⟨hp, h.schedule⟩
  · refine .onPart (fun _ _ h => by rw [h.schedule]) fun _ _ _ h => ⟨h.intake, ?_⟩
    simp only [h.schedule]

end Inbound

namespace Channel

/-- The same channel but for the places where the incoming bytes are cut. -/
structure Recut (c c' : Channel cs) : Prop where
  intake : SameStream c.intake c'.intake
  outgoing : c'.outgoing = c.outgoing
  buffer : c'.buffer = c.buffer
  schedule : c'.schedule = c.schedule

theorem simulates_onOutgoing (x : EStateM Stop (Outgoing cs) α) :
    Simulates Recut (onOutgoing x) (onOutgoing x) := by
  refine .onPart (fun _ _ h => h.outgoing.symm) ?_
  exact fun _ _ _ h => ⟨h.intake, rfl, h.buffer, h.schedule⟩

theorem simulates_onSchedule (x : KeySchedule.M cs α) :
    Simulates Recut (onSchedule x) (onSchedule x) := by
  refine .onPart (fun _ _ h => h.schedule.symm) ?_
  exact fun _ _ _ h => ⟨h.intake, h.outgoing, h.buffer, rfl⟩

theorem simulates_onWriter (x : EStateM Stop RecordWriter α) :
    Simulates (@Recut cs) (onWriter x) (onWriter x) := by
  refine .onPart (fun _ _ h => by rw [h.buffer, h.schedule]) ?_
  exact fun _ _ _ h => ⟨h.intake, h.outgoing, rfl, by simp only [h.schedule]⟩

theorem simulates_read (P : Primitives cs) : Simulates Recut (read P) (read P) := by
  refine (Inbound.simulates_read P).onParts (fun _ _ h => ⟨h.intake, by rw [h.schedule]⟩) ?_
  exact fun _ _ _ _ h hp => ⟨hp.intake, h.outgoing, h.buffer, by simp only [h.schedule, hp.schedule]⟩

theorem simulates_writeRecord (P : Primitives cs) (record : ClientRecord cs) :
    Simulates Recut (writeRecord P record) (writeRecord P record) := by
  refine .get_bind fun c c' h => ?_
  rw [h.schedule]
  exact simulates_onWriter _

theorem simulates_transmit (slice : Bytes) : Simulates (@Recut cs) (transmit slice) (transmit slice) := by
  refine .get_bind fun c c' h => ?_
  rw [h.schedule]
  exact (simulates_onOutgoing _).bind fun _ => simulates_onSchedule _

theorem simulates_flushTransport : Simulates (@Recut cs) flushTransport flushTransport :=
  simulates_onOutgoing _

theorem simulates_respond (tx : Bytes) : Simulates (@Recut cs) (respond tx) (respond tx) :=
  (simulates_transmit tx).bind fun _ => simulates_flushTransport

end Channel

namespace Opening

structure Recut (o o' : Opening cs π) : Prop where
  channel : o.channel.Recut o'.channel
  handshake : o'.handshake = o.handshake
  provider : o'.provider = o.provider
  checks : o'.checks = o.checks

theorem simulates_onChannel {x : Channel.M cs α} (h : Simulates Channel.Recut x x) :
    Simulates (@Recut cs π) (onChannel x) (onChannel x) :=
  h.onParts (fun _ _ h => h.channel) fun _ _ _ _ h hp => ⟨hp, h.handshake, h.provider, h.checks⟩

theorem simulates_onProvider (x : EStateM Stop π α) :
    Simulates (@Recut cs π) (onProvider x) (onProvider x) :=
  .onPart (fun _ _ h => h.provider.symm) fun _ _ _ h => ⟨h.channel, h.handshake, rfl, h.checks⟩

theorem simulates_processServerVerify (P : Primitives cs) (pr : CryptoProvider π)
    (record : ServerRecord cs) :
    Simulates Recut (processServerVerify P pr record) (processServerVerify P pr record) := by
  refine .onPart (fun o o' h => ?_) fun o o' r h => ⟨⟨h.channel.intake, h.channel.outgoing,
    h.channel.buffer, ?_⟩, rfl, rfl, rfl⟩
  · unfold reading
    rw [h.channel.schedule, h.handshake, h.provider, h.checks]
  · simp only [putReading, h.channel.schedule]

theorem simulates_handleProcessingError (P : Primitives cs) {x : M cs π State}
    (hx : Simulates Recut x x) :
    Simulates Recut (handleProcessingError P x) (handleProcessingError P x) := by
  intro o o' h
  unfold handleProcessingError
  obtain ⟨state, s, t, hrun, hrun', hst⟩ | ⟨e, s, t, hrun, hrun', hst⟩ := (hx o o' h).cases
  · rw [hrun, hrun']
    exact ⟨rfl, hst⟩
  · rw [hrun, hrun']
    cases e with
    | err e =>
        cases e with
        | abortHandshake level description =>
            refine Simulates.bind ?_ (fun tx => .bind ?_ fun _ => .throw _) s t hst
            · exact simulates_onChannel (Channel.simulates_writeRecord P _)
            · exact simulates_onChannel (Channel.simulates_respond tx)
        | _ => exact ⟨rfl, hst⟩
    | _ => exact ⟨rfl, hst⟩

theorem simulates_clientCert (P : Primitives cs) (pr : CryptoProvider π) :
    Simulates Recut (clientCert P pr) (clientCert P pr) := by
  refine Simulates.bind (.modify ?_) fun _ => .get_bind fun o o' h => ?_
  · exact fun o o' h => ⟨h.channel, by rw [h.handshake, h.channel.schedule], h.provider, h.checks⟩
  · rw [h.handshake]
    cases o.handshake.certificateRequest with
    | none => exact .throw _
    | some request =>
        refine (simulates_onProvider _).bind fun cert => .bind ?_ fun tx => .pure _
        exact simulates_onChannel (Channel.simulates_writeRecord P _)

theorem simulates_clientCertVerify (P : Primitives cs) (pr : CryptoProvider π) :
    Simulates Recut (clientCertVerify P pr) (clientCertVerify P pr) := by
  intro o o' h
  unfold clientCertVerify
  rw [h.provider]
  cases pr.signer o.provider with
  | error e provider =>
      refine Simulates.bind (R := Recut) ?_ (fun tx => .pure _) _ _
        ⟨h.channel, h.handshake, rfl, h.checks⟩
      exact simulates_onChannel (Channel.simulates_writeRecord P _)
  | ok scheme provider =>
      refine Simulates.get_bind (R := Recut) (fun o₁ o₁' h₁ => ?_) _ _
        ⟨h.channel, h.handshake, rfl, h.checks⟩
      simp only [h₁.channel.schedule]
      refine (simulates_onProvider _).bind fun signature => ?_
      split
      · exact .throw _
      · refine .bind ?_ fun tx => .pure _
        exact simulates_onChannel (Channel.simulates_writeRecord P _)

theorem simulates_clientFinished (P : Primitives cs) :
    Simulates Channel.Recut (clientFinished P) (clientFinished P) := by
  refine .get_bind fun c c' h => ?_
  simp only [h.schedule]
  exact (Simulates.fromResult _).bind fun finished => Channel.simulates_writeRecord P _

theorem simulates_clientFinishedFinalize (P : Primitives cs) :
    Simulates (@Recut cs π) (clientFinishedFinalize P) (clientFinishedFinalize P) := by
  refine .get_bind fun o o' h => ?_
  simp only [h.handshake]
  cases o.handshake.trafficHash with
  | none => exact .throw _
  | some hash =>
      refine Simulates.bind (.modify ?_) fun _ => .bind ?_ fun _ => .pure _
      · exact fun _ _ h => ⟨h.channel, by rw [h.handshake], h.provider, h.checks⟩
      · exact simulates_onChannel (Channel.simulates_onSchedule _)

theorem simulates_process (P : Primitives cs) (pr : CryptoProvider π) (state : State) :
    Simulates Recut (process P pr state) (process P pr state) := by
  have hrespond := fun tx => @simulates_onChannel cs π Unit _ (Channel.simulates_respond tx)
  cases state with
  | serverVerify =>
      refine (simulates_onChannel (Channel.simulates_read P)).bind fun read => ?_
      exact simulates_handleProcessingError P (simulates_processServerVerify P pr read.2)
  | clientCert => exact (simulates_clientCert P pr).bind fun r => (hrespond r.2).bind fun _ => .pure _
  | clientCertVerify =>
      exact (simulates_clientCertVerify P pr).bind fun r => (hrespond r.2).bind fun _ => .fromResult _
  | clientFinished =>
      refine (simulates_onChannel (simulates_clientFinished P)).bind fun tx => ?_
      exact (hrespond tx).bind fun _ => simulates_clientFinishedFinalize P
  | applicationData => exact .pure _

end Opening

namespace Establishing

structure Recut (e e' : Establishing cs π C) : Prop where
  opening : e.opening.Recut e'.opening
  secret : e'.secret = e.secret

theorem simulates_onOpening {x : Opening.M cs π α} (h : Simulates Opening.Recut x x) :
    Simulates (@Recut cs π C) (onOpening x) (onOpening x) :=
  h.onParts (fun _ _ h => h.opening) fun _ _ _ _ h hp => ⟨hp, h.secret⟩

theorem simulates_onChannel {x : Channel.M cs α} (h : Simulates Channel.Recut x x) :
    Simulates (@Recut cs π C) (onChannel x) (onChannel x) :=
  simulates_onOpening (Opening.simulates_onChannel h)

theorem simulates_onGreeting (x : Greeting.M cs C α) :
    Simulates (@Recut cs π C) (onGreeting x) (onGreeting x) := by
  refine .onPart (fun e e' h => ?_) fun e e' g h => ⟨⟨⟨h.opening.channel.intake,
    h.opening.channel.outgoing, rfl, rfl⟩, h.opening.handshake, h.opening.provider,
    h.opening.checks⟩, rfl⟩
  rw [h.opening.channel.schedule, h.opening.channel.buffer, h.secret]

theorem simulates_handleProcessingError (P : Primitives cs) {x : M cs π C State}
    (hx : Simulates Recut x x) :
    Simulates Recut (handleProcessingError P x) (handleProcessingError P x) := by
  intro e e' h
  unfold handleProcessingError
  obtain ⟨state, s, t, hrun, hrun', hst⟩ | ⟨stop, s, t, hrun, hrun', hst⟩ := (hx e e' h).cases
  · rw [hrun, hrun']
    exact ⟨rfl, hst⟩
  · rw [hrun, hrun']
    exact simulates_onOpening (Opening.simulates_handleProcessingError P (.throw stop)) s t hst

theorem simulates_process (P : Primitives cs) (pr : CryptoProvider π) (config : TlsConfig)
    (random : GenericArray 32) (secret : C.Secret) (stage : Stage) :
    Simulates Recut (process P pr config random secret stage)
      (process P pr config random secret stage) := by
  cases stage with
  | clientHello =>
      refine (simulates_onGreeting _).bind fun tx => .bind ?_ fun _ => .pure _
      exact simulates_onChannel (Channel.simulates_respond tx)
  | serverHello =>
      refine (simulates_onChannel (Channel.simulates_read P)).bind fun read => .bind ?_ fun _ => .pure _
      exact simulates_handleProcessingError P (simulates_onGreeting _)
  | later state => exact (simulates_onOpening (Opening.simulates_process P pr state)).bind fun _ => .pure _

end Establishing

namespace TlsConnection

structure Recut (c c' : TlsConnection cs) : Prop where
  channel : c.channel.Recut c'.channel
  opened : c'.opened = c.opened
  decrypted : c'.decrypted = c.decrypted
  flushPolicy : c'.flushPolicy = c.flushPolicy

theorem simulates_onChannel {x : Channel.M cs α} (h : Simulates Channel.Recut x x) :
    Simulates Recut (onChannel x) (onChannel x) :=
  h.onParts (fun _ _ h => h.channel) fun _ _ _ _ h hp => ⟨hp, h.opened, h.decrypted, h.flushPolicy⟩

/-- A writer's routine does not look at what comes in. -/
theorem simulates_within (x : TlsWriter.T cs α) : Simulates Recut (writer.within x) (writer.within x) := by
  refine .onPart (fun c c' h => ?_) fun c c' half h => ⟨⟨h.channel.intake, rfl, rfl, ?_⟩, h.opened,
    h.decrypted, rfl⟩
  · simp only [writer, split, h.channel.outgoing, h.channel.buffer, h.channel.schedule, h.flushPolicy]
  · simp only [writer, rejoin, split, h.channel.schedule]

theorem simulates_closeInternal (P : Primitives cs) :
    Simulates Recut (closeInternal P) (closeInternal P) := by
  refine Simulates.bind (TlsWriter.within_flush P ▸ simulates_within _) fun _ => .get_bind fun c c' h => ?_
  simp only [h.opened]
  refine (simulates_onChannel (Channel.simulates_writeRecord P _)).bind fun slice => ?_
  refine (simulates_onChannel (Channel.simulates_transmit slice)).bind fun _ => ?_
  exact simulates_onChannel Channel.simulates_flushTransport

theorem simulates_readApplicationData (P : Primitives cs) :
    Simulates Recut (readApplicationData P) (readApplicationData P) := by
  refine (simulates_onChannel (Channel.simulates_read P)).bind fun read => ?_
  refine .onPart (fun c c' h => ?_) fun c c' r h => ⟨⟨h.channel.intake.withBuf _, h.channel.outgoing,
    h.channel.buffer, ?_⟩, rfl, rfl, h.flushPolicy⟩
  · unfold handling
    rw [h.channel.schedule, h.channel.intake.reader, h.decrypted, h.opened]
  · simp only [putHandling, h.channel.schedule]

theorem simulates_fillWindow (P : Primitives cs) (n : Nat) :
    Simulates Recut (fillWindow P n) (fillWindow P n) := by
  induction n with
  | zero => exact .pure _
  | succ n ih =>
      refine .get_bind fun c c' h => ?_
      rw [h.decrypted]
      split
      · exact (simulates_readApplicationData P).bind fun _ => ih
      · exact .pure _

theorem simulates_createReadBuffer : Simulates (@Recut cs) createReadBuffer createReadBuffer := by
  refine .get_bind fun c c' h => ?_
  rw [h.decrypted, h.channel.intake.reader]
  exact .fromResult _

theorem simulates_readBuffered (P : Primitives cs) :
    Simulates Recut (readBuffered P) (readBuffered P) := by
  refine .get_bind fun c c' h => ?_
  rw [h.opened, h.channel.intake.size_eq]
  split
  · exact (simulates_fillWindow P _).bind fun _ => simulates_createReadBuffer
  · exact .throw _

theorem Recut.pop {c c' : TlsConnection cs} (h : c.Recut c') (count : Nat) :
    Recut { c with decrypted := c.decrypted.pop count } { c' with decrypted := c'.decrypted.pop count } :=
  ⟨h.channel, h.opened, by rw [h.decrypted], h.flushPolicy⟩

theorem simulates_pop (count : Nat) : Simulates (@Recut cs) (pop count) (pop count) :=
  simulates_createReadBuffer.bind fun _ =>
    Simulates.bind (.modify fun _ _ h => h.pop count) fun _ => .pure _

theorem simulates_lend (data : Bytes) (calls : List BufferCall) (release : Release) :
    Simulates (@Recut cs) (lend data calls release) (lend data calls release) :=
  Simulates.bind (.modify fun _ _ h => h.pop _) fun _ => .pure _

theorem simulates_runCall (P : Primitives cs) (call : ReadCall) :
    Simulates Recut (runCall P call) (runCall P call) := by
  cases call with
  | read len =>
      refine Simulates.bind ?_ fun bytes => .pure _
      unfold read
      split
      · exact .pure _
      · exact (simulates_readBuffered P).bind fun _ => simulates_pop len
  | readBuffered calls release =>
      exact (simulates_readBuffered P).bind fun data => simulates_lend data calls release
  | fillBuf => exact (simulates_readBuffered P).bind fun data => simulates_lend data _ _
  | consume amt => exact simulates_createReadBuffer.bind fun data => simulates_lend data _ _

theorem simulates_runWrite (P : Primitives cs) (call : WriteCall) :
    Simulates Recut (runWrite P call) (runWrite P call) := by
  intro c c' h
  rw [runWrite_eq, runWrite_eq, h.opened]
  exact simulates_within _ c c' h

end TlsConnection

variable {P : Primitives cs} {pr : CryptoProvider π}
  {setHostnameVerification : Bytes → EStateM Stop π Unit}

namespace Life

inductive Recut : Life cs π C → Life cs π C → Prop
  | opening {a : Attempt cs π C} {establishing : Establishing cs π C} :
      a.establishing.Recut establishing → Recut (.opening a) (.opening { a with establishing })
  | connected {c c' : TlsConnection cs} : c.Recut c' → Recut (.connected c) (.connected c')
  | gone {c c' : TlsConnection cs} : c.Recut c' → Recut (.gone c) (.gone c')

theorem Recut.connection {s s' : Life cs π C} (h : s.Recut s') : s.connection.Recut s'.connection := by
  cases h with
  | opening h => exact ⟨h.opening.channel, rfl, rfl, rfl⟩
  | connected h => exact h
  | gone h => exact h

theorem Recut.left {c c' : TlsConnection cs} (h : c.Recut c') (e : Stop) :
    Recut (Life.left c e : Life cs π C) (Life.left c' e) := by
  cases e with
  | err e => exact .connected h
  | panic => exact .gone h
  | abandoned => exact .connected h

/-- The same answer, and then lives that are alike again. -/
def Alike (r r' : Option (Except Stop LifeAnswer) × Life cs π C) : Prop := r.1 = r'.1 ∧ r.2.Recut r'.2

theorem alike_answered {answer : α → LifeAnswer} {r r' : EStateM.Result Stop (TlsConnection cs) α}
    (h : Stateful.Alike TlsConnection.Recut r r') :
    Alike (answered answer r : _ × Life cs π C) (answered answer r') := by
  obtain ⟨a, c, c', rfl, rfl, hc⟩ | ⟨e, c, c', rfl, rfl, hc⟩ := h.cases
  · exact ⟨rfl, .connected hc⟩
  · exact ⟨rfl, .left hc e⟩

theorem Recut.attempt {c c' : TlsConnection cs} (h : c.Recut c') (config : TlsConfig)
    (random : GenericArray 32) (secret : C.Secret) (provider : π) :
    Recut (.opening (attempt c config random secret provider))
      (.opening (attempt c' config random secret provider)) := by
  have hsame : Life.attempt c' config random secret provider =
      { Life.attempt c config random secret provider with
        establishing := ⟨⟨c'.channel, ⟨none, none⟩, provider, []⟩, none⟩ } := by
    simp only [Life.attempt, h.opened, h.decrypted, h.flushPolicy]
  rw [hsame]
  exact .opening ⟨⟨h.channel, rfl, rfl, rfl⟩, rfl⟩

theorem alike_turned {a : Attempt cs π C} {establishing : Establishing cs π C}
    {r r' : EStateM.Result Stop (Establishing cs π C) Stage}
    (h : Stateful.Alike Establishing.Recut r r') :
    Alike (turned a r) (turned { a with establishing } r') := by
  obtain ⟨stage, e, e', rfl, rfl, he⟩ | ⟨stop, e, e', rfl, rfl, he⟩ := h.cases
  · refine ⟨rfl, ?_⟩
    simp only [turned]
    split
    · exact .connected ⟨he.opening.channel, rfl, rfl, rfl⟩
    · exact .opening he
  · have hc : (Attempt.connection { a with establishing := e }).Recut
        (Attempt.connection { a with establishing := e' }) := ⟨he.opening.channel, rfl, rfl, rfl⟩
    exact ⟨rfl, .left hc stop⟩

theorem step_alike {s s' : Life cs π C} (h : s.Recut s') (call : LifeCall π C) :
    Alike (step P pr setHostnameVerification s call) (step P pr setHostnameVerification s' call) := by
  cases h with
  | @opening a e he =>
      cases call with
      | turn => exact alike_turned (Establishing.simulates_process P pr _ _ _ _ _ _ he)
      | _ => exact ⟨rfl, .opening he⟩
  | @connected c c' hc =>
      cases call with
      | «open» config random secret provider =>
          simp only [step]
          cases hostname pr setHostnameVerification config.serverName provider with
          | ok u provider => exact ⟨rfl, .attempt hc config random secret provider⟩
          | error e provider => exact ⟨rfl, .left hc e⟩
      | turn => exact ⟨rfl, .connected hc⟩
      | read call => exact alike_answered (TlsConnection.simulates_runCall P call c c' hc)
      | write call => exact alike_answered (TlsConnection.simulates_runWrite P call c c' hc)
      | setFlushPolicy policy => exact ⟨rfl, .connected ⟨hc.channel, hc.opened, hc.decrypted, rfl⟩⟩
      | close =>
          have hclose := TlsConnection.simulates_closeInternal P c c' hc
          exact ⟨(alike_answered hclose).1, .gone hclose.after⟩
  | gone hc => cases call <;> exact ⟨rfl, .gone hc⟩

end Life

/-- Wherever the transport cuts the peer's bytes, the same calls get the same answers, the same
records are sent, and the same keys are in force. -/
theorem chunking_invisible {t t' : Incoming} {bytes : Bytes}
    (ht : Delivers t bytes) (ht' : Delivers t' bytes) {plan : List IoOutcome} {recordReadBuf : Bytes}
    {recordWriteBuf : WriteBuffer} {h : List (LifeEvent cs π C)} {s : Life cs π C}
    (hr : Reaches (Life.step P pr setHostnameVerification)
      (.new t plan recordReadBuf recordWriteBuf) h s) :
    ∃ h' s', Reaches (Life.step P pr setHostnameVerification)
        (.new t' plan recordReadBuf recordWriteBuf) h' s' ∧
      h'.map (fun e => (e.call, e.out)) = h.map (fun e => (e.call, e.out)) ∧
      s'.connection.channel.outgoing = s.connection.channel.outgoing ∧
      s'.connection.channel.schedule = s.connection.channel.schedule := by
  have hstart : Life.Recut (.new t plan recordReadBuf recordWriteBuf : Life cs π C)
      (.new t' plan recordReadBuf recordWriteBuf) :=
    .connected ⟨⟨.recut rfl ht ht', rfl, rfl, rfl⟩, rfl, rfl, rfl⟩
  obtain ⟨h', s', hr', hs, hsame⟩ := hr.follow (fun _ _ call h => Life.step_alike h call) hstart
  exact ⟨h', s', hr', hsame, hs.connection.channel.outgoing, hs.connection.channel.schedule⟩

namespace Certified

open Peer

def bytewise : Incoming := arriving.map fun b => .chunk [b]

def buffer : WriteBuffer := ⟨List.replicate 400 0, 0, none⟩

def calls : List (LifeCall Unit .one) :=
  .open Sample.config greeting.random () () :: List.replicate 6 .turn ++
    [.write (.write [1, 2, 3]), .write .flush, .read (.read 10), .close]

/-- The connection is opened, written to and closed. -/
def life : List (LifeEvent Peer.cs Unit .one) × Life Peer.cs Unit .one :=
  runAll (Life.step suite signing fun _ => pure ())
    ([], .new [.chunk arriving] [] (List.replicate 200 0) buffer) calls

theorem life_reaches : Reaches (Life.step suite signing fun _ => pure ())
    (.new [.chunk arriving] [] (List.replicate 200 0) buffer) life.1 life.2 := by
  unfold life
  exact runAll_reaches .nil calls

theorem bytewise_delivers : Delivers bytewise arriving := by
  have hbytes : ∀ bytes : Bytes, Delivers (bytes.map fun b => .chunk [b]) bytes := by
    intro bytes
    induction bytes with
    | nil => exact .closed
    | cons b bytes ih => exact .chunk (List.cons_ne_nil b []) ih
  exact hbytes arriving

theorem piece_delivers : Delivers [.chunk arriving] arriving := by
  have h := Delivers.chunk (show arriving ≠ [] by decide +kernel) .closed
  rwa [List.append_nil] at h

/-- Byte by byte the handshake succeeds as well, and the six records are the same. -/
theorem flight_bytewise : life.2.connection.channel.outgoing.sent.length = 6 ∧
    ∃ h' s', Reaches (Life.step suite signing fun _ => pure ())
        (.new bytewise [] (List.replicate 200 0) buffer) h' s' ∧
      h'.map (fun e => (e.call, e.out)) = life.1.map (fun e => (e.call, e.out)) ∧
      s'.connection.channel.outgoing = life.2.connection.channel.outgoing ∧
      s'.connection.channel.schedule = life.2.connection.channel.schedule :=
  ⟨by decide +kernel, chunking_invisible piece_delivers bytewise_delivers life_reaches⟩

end Certified

end GatoPskTls.Client
