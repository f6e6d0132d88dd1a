import GatoPskTls.RecordReader
import GatoPskTls.SentRecord

/-!
# The client's channel

Reader, write buffer, transport and key schedule of a connection, which the handshake and the
open connection share. How each call to the transport's writing side ends is laid down in a
plan; what the transport took, and the key and nonce in force at that moment, are noted.
-/
namespace GatoPskTls.Client

open Stateful

variable {cs : TlsCipherSuite}

/-- How a `write_all` or `flush` of the transport ends. Before it fails, or before the caller
drops its future, `write_all` may have passed on some of the bytes. -/
inductive IoOutcome
  | done
  | failed (taken : Nat) (kind : ErrorKind)
  | abandoned (taken : Nat)
  deriving DecidableEq, Repr

namespace IoOutcome

def taken (len : Nat) : IoOutcome → Nat
  | done => len
  | failed taken _ => min taken len
  | abandoned taken => min taken len

def result : IoOutcome → Except Stop Unit
  | done => .ok ()
  | failed _ kind => .error (.err (.io kind))
  | abandoned _ => .error .abandoned

end IoOutcome

/-- A record given to `write_all`. -/
structure Sent (cs : TlsCipherSuite) where
  record : Bytes
  taken : Nat
  completed : Bool
  key : GenericArray cs.keyLen
  nonce : GenericArray cs.ivLen
  deriving DecidableEq

/-- The transport's writing side; the newest record stands first. -/
structure Outgoing (cs : TlsCipherSuite) where
  plan : List IoOutcome
  sent : List (Sent cs)
  deriving DecidableEq

namespace Outgoing

/-- Behind its plan the transport never fails. -/
def next : EStateM Stop (Outgoing cs) IoOutcome := do
  let o ← get
  match o.plan with
  | [] => return .done
  | outcome :: plan =>
      set { o with plan }
      return outcome

def writeAll (s : KeyScheduleState cs) (record : Bytes) : EStateM Stop (Outgoing cs) Unit := do
  let outcome ← next
  let entry : Sent cs :=
    ⟨record, outcome.taken record.length, outcome == .done, s.key, KeyScheduleState.nonce s.counter s.iv⟩
  modify fun o => { o with sent := entry :: o.sent }
  fromResult outcome.result

def flush : EStateM Stop (Outgoing cs) Unit := do
  let outcome ← next
  fromResult outcome.result

end Outgoing

structure Channel (cs : TlsCipherSuite) where
  intake : Intake
  outgoing : Outgoing cs
  buffer : WriteBuffer
  schedule : KeySchedule cs

namespace Channel

abbrev M (cs : TlsCipherSuite) := EStateM Stop (Channel cs)

def onOutgoing {α : Type} (x : EStateM Stop (Outgoing cs) α) : M cs α :=
  onPart (·.outgoing) (fun c outgoing => { c with outgoing }) x

def onBuffer {α : Type} (x : WriteBuffer.M α) : M cs α :=
  onPart (·.buffer) (fun c buffer => { c with buffer }) x

def onSchedule {α : Type} (x : KeySchedule.M cs α) : M cs α :=
  onPart (·.schedule) (fun c schedule => { c with schedule }) x

def onInbound {α : Type} (x : EStateM Stop (Inbound cs) α) : M cs α :=
  onPart (fun c => ⟨c.intake, c.schedule.serverState⟩)
    (fun c i => { c with intake := i.intake, schedule.serverState := i.schedule }) x

/-- The write buffer and the transcript, which `write_record` borrows together. -/
def onWriter {α : Type} (x : EStateM Stop RecordWriter α) : M cs α :=
  onPart (fun c => ⟨c.buffer, some c.schedule.serverState.transcriptHash⟩)
    (fun c o => { c with
      buffer := o.buffer
      schedule.serverState.transcriptHash :=
        o.transcript.getD c.schedule.serverState.transcriptHash }) x

def read (P : Primitives cs) : M cs (Nat × ServerRecord cs) := onInbound (Inbound.read P)

theorem read_eq_ok {P : Primitives cs} {c c' : Channel cs} {start : Nat} {record : ServerRecord cs}
    (h : read P c = .ok (start, record) c') :
    ∃ f intake transcript, RecordReader.fetch c.intake = .ok f intake ∧ start = f.start ∧
      ServerRecord.Decodes P f.header f.body c.schedule.serverState.transcriptHash record
        transcript ∧
      c' = { c with intake, schedule.serverState.transcriptHash := transcript } := by
  simp only [read] at h
  obtain ⟨i, hi, rfl⟩ := onPart_eq_ok.mp h
  obtain ⟨f, intake, transcript, hfetch, hstart, hdecodes, rfl⟩ := Inbound.read_eq_ok hi
  exact ⟨f, intake, transcript, hfetch, hstart, hdecodes, rfl⟩

def closeRecord (P : Primitives cs) : M cs Bytes := do
  let s := (← get).schedule.clientState.state
  onBuffer (WriteBuffer.closeRecord P s)

def writeRecord (P : Primitives cs) (record : ClientRecord cs) : M cs Bytes := do
  let ks := (← get).schedule.clientState
  onWriter (RecordWriter.writeRecord P ks (.later record))

/-- The counter advances once the transport has taken the whole record. -/
def transmit (slice : Bytes) : M cs Unit := do
  let s := (← get).schedule.clientState.state
  onOutgoing (Outgoing.writeAll s slice)
  onSchedule (KeySchedule.onClient KeyScheduleState.incrementCounter)

def flushTransport : M cs Unit := onOutgoing Outgoing.flush

def respond (tx : Bytes) : M cs Unit := do
  transmit tx
  flushTransport

/-- Nothing has been sent, and nothing about sending has changed. -/
structure SameOutput (c c' : Channel cs) : Prop where
  buffer : c'.buffer = c.buffer
  outgoing : c'.outgoing = c.outgoing
  shared : c'.schedule.shared = c.schedule.shared
  clientState : c'.schedule.clientState = c.schedule.clientState

instance : Std.Refl (@SameOutput cs) := ⟨fun _ => ⟨rfl, rfl, rfl, rfl⟩⟩

instance : IsTrans (Channel cs) SameOutput where
  trans _ _ _ h h' := ⟨h'.buffer.trans h.buffer, h'.outgoing.trans h.outgoing,
    h'.shared.trans h.shared, h'.clientState.trans h.clientState⟩

theorem keeps_output_read (P : Primitives cs) : Keeps SameOutput (read P) :=
  Keeps.onPart (R := fun _ _ => True) (fun _ => trivial) fun _ _ _ => ⟨rfl, rfl, rfl, rfl⟩

/-- Nothing has been read, and nothing about reading has changed. -/
structure SameInput (c c' : Channel cs) : Prop where
  intake : c'.intake = c.intake
  serverState : c'.schedule.serverState = c.schedule.serverState

instance : Std.Refl (@SameInput cs) := ⟨fun _ => ⟨rfl, rfl⟩⟩

instance : IsTrans (Channel cs) SameInput where
  trans _ _ _ h h' := ⟨h'.intake.trans h.intake, h'.serverState.trans h.serverState⟩

theorem keeps_onOutgoing {α : Type} (x : EStateM Stop (Outgoing cs) α) :
    Keeps SameInput (onOutgoing x) :=
  Keeps.onPart (R := fun _ _ => True) (fun _ => trivial) fun _ _ _ => ⟨rfl, rfl⟩

theorem keeps_onBuffer {α : Type} (x : WriteBuffer.M α) :
    Keeps (@SameInput cs) (onBuffer x) :=
  Keeps.onPart (R := fun _ _ => True) (fun _ => trivial) fun _ _ _ => ⟨rfl, rfl⟩

theorem keeps_closeRecord (P : Primitives cs) : Keeps SameInput (closeRecord P) :=
  Keeps.get.bind fun _ => keeps_onBuffer _

theorem keeps_writeRecord_alert (P : Primitives cs) (a : Alert) (encrypted : Bool) :
    Keeps SameInput (writeRecord P (.alert a encrypted)) := by
  refine Keeps.get.bind fun c => (RecordWriter.keeps_writeRecord_alert P _ a encrypted).onPart ?_
  rintro c ⟨buffer, _⟩ rfl
  exact ⟨rfl, rfl⟩

theorem keeps_transmit (slice : Bytes) : Keeps (@SameInput cs) (transmit slice) := by
  refine Keeps.get.bind fun c => (keeps_onOutgoing _).bind fun _ => ?_
  have hcount : Keeps (fun ks ks' : KeySchedule cs => ks'.serverState = ks.serverState)
      (KeySchedule.onClient KeyScheduleState.incrementCounter) :=
    Keeps.onPart (R := fun _ _ => True) (fun _ => trivial) fun _ _ _ => rfl
  exact hcount.onPart fun _ _ h => ⟨rfl, h⟩

theorem keeps_flushTransport : Keeps (@SameInput cs) flushTransport := keeps_onOutgoing _

theorem keeps_respond (tx : Bytes) : Keeps (@SameInput cs) (respond tx) :=
  (keeps_transmit tx).bind fun _ => keeps_flushTransport

end Channel

end GatoPskTls.Client
