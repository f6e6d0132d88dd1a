import GatoPskTls.Client.Authentication
import GatoPskTls.Client.Greeting
import GatoPskTls.Client.Sending

/-!
# The whole handshake

`State::process` from the ClientHello to the open connection, and what each of its turns does
to the key schedule, the transcript and the records that have been sent.
-/
namespace GatoPskTls.Client

open Stateful BigEndian ParseBuffer

variable {cs : TlsCipherSuite} {π : Type} {C : P256}

/-- The states, those of the two hellos before the ones with handshake keys. -/
inductive Stage
  | clientHello
  | serverHello
  | later (state : State)
  deriving DecidableEq, Repr

/-- What `open` works on, with the secret of the key exchange. -/
structure Establishing (cs : TlsCipherSuite) (π : Type) (C : P256) where
  opening : Opening cs π
  secret : Option C.Secret

namespace Establishing

abbrev M (cs : TlsCipherSuite) (π : Type) (C : P256) := EStateM Stop (Establishing cs π C)

def onOpening {α : Type} (x : Opening.M cs π α) : M cs π C α :=
  onPart (·.opening) (fun e opening => { e with opening }) x

def onChannel {α : Type} (x : Channel.M cs α) : M cs π C α := onOpening (Opening.onChannel x)

def onGreeting {α : Type} (x : Greeting.M cs C α) : M cs π C α :=
  onPart (fun e => ⟨e.opening.channel.schedule, e.opening.channel.buffer, e.secret⟩)
    (fun e g => { e with
      opening.channel.schedule := g.schedule
      opening.channel.buffer := g.buffer
      secret := g.secret }) x

/-- `handle_processing_error` for an error of the ServerHello. -/
def handleProcessingError (P : Primitives cs) (x : M cs π C State) : M cs π C State := fun e =>
  match x e with
  | .error stop e' => onOpening (Opening.handleProcessingError P (throw stop)) e'
  | result => result

/-- `random` and `secret` are what the random number generator gave. -/
def process (P : Primitives cs) (pr : CryptoProvider π) (config : TlsConfig)
    (random : GenericArray 32) (secret : C.Secret) : Stage → M cs π C Stage
  | .clientHello => do
      let tx ← onGreeting (Greeting.clientHello P config random secret)
      onChannel (Channel.respond tx)
      return .serverHello
  | .serverHello => do
      let (_, record) ← onChannel (Channel.read P)
      let state ← handleProcessingError P (onGreeting (Greeting.processServerHello P record))
      return .later state
  | .later state => do
      let state ← onOpening (Opening.process P pr state)
      return .later state

/-- The loop of `open`, for `n` turns at most. -/
def run (P : Primitives cs) (pr : CryptoProvider π) (config : TlsConfig)
    (random : GenericArray 32) (secret : C.Secret) : Nat → Stage → M cs π C Stage
  | 0, stage => pure stage
  | n+1, stage =>
      if stage = .later .applicationData then pure stage
      else do
        let stage ← process P pr config random secret stage
        run P pr config random secret n stage

/-- A connection that has just been created, and a new `Handshake`. -/
structure Fresh (e : Establishing cs π C) : Prop where
  schedule : e.opening.channel.schedule = .new
  buffer : e.opening.channel.buffer.Idle
  sent : e.opening.channel.outgoing.sent = []
  handshake : e.opening.handshake = ⟨none, none⟩
  secret : e.secret = none

theorem handleProcessingError_eq_ok {P : Primitives cs} {x : M cs π C State}
    {e e' : Establishing cs π C} {state : State}
    (h : handleProcessingError P x e = .ok state e') : x e = .ok state e' := by
  simp only [handleProcessingError] at h
  split at h
  · obtain ⟨o, ho, -⟩ := onPart_eq_ok.mp h
    cases Opening.handleProcessingError_eq_ok ho
  · exact h

end Establishing

namespace Channel

/-- A message that was written from an empty buffer went out in a record of its own. -/
theorem writeRecord_eq_ok {P : Primitives cs} {record : ClientRecord cs} {c c' : Channel cs}
    {tx : Bytes} (hidle : c.buffer.Idle) (h : writeRecord P record c = .ok tx c') :
    ∃ buffer, buffer.Idle ∧
      record.header.carry P c.writeState (SentRecord.later record).payload = some tx ∧
      c' = { c with
        buffer
        schedule.serverState.transcriptHash := c.schedule.serverState.transcriptHash ++
          record.transcribed (SentRecord.later record).payload } := by
  simp only [writeRecord, get_bind_apply] at h
  obtain ⟨⟨buffer, transcript⟩, hwritten, rfl⟩ := onPart_eq_ok.mp h
  obtain ⟨t, m, ht, hmessage, hcarried, hempty, htranscript⟩ :=
    RecordWriter.writeRecord_record hidle hwritten
  cases ht
  cases hmessage
  cases htranscript
  exact ⟨buffer, hempty, hcarried, rfl⟩

/-- A handshake message has been sent under the client's keys: it is the newest record, and
it stands in the transcript. -/
structure Speaks (P : Primitives cs) (message : ClientHandshake cs) (c c' : Channel cs) : Prop where
  intake : c'.intake = c.intake
  idle : c'.buffer.Idle
  sent : ∃ entry, c'.outgoing.sent = entry :: c.outgoing.sent ∧
    sealedRecord P c.writeState ((ClientRecordHeader.handshake true).plaintext message.wire) =
      some entry.record
  schedule : c'.schedule = { c.schedule with
    clientState.state.counter := c.writeState.counter + 1
    serverState.transcriptHash := c.schedule.serverState.transcriptHash ++ message.wire }

end Channel

namespace Opening

variable {P : Primitives cs} {pr : CryptoProvider π} {o o' : Opening cs π} {state : State}

end Opening

namespace Establishing

variable {P : Primitives cs} {pr : CryptoProvider π} {config : TlsConfig} {random : GenericArray 32}
  {secret : C.Secret} {e e' : Establishing cs π C} {stage : Stage}

end Establishing

end GatoPskTls.Client
