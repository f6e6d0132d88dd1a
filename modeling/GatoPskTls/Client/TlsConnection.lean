import GatoPskTls.Lib.History
import GatoPskTls.Client.Connection

/-!
# The open connection

Reading, writing and closing, and the client as a machine from the moment the handshake keys
are installed. The split reader and writer run the same code on their parts of the state.
-/
namespace GatoPskTls.Client

open Stateful Splice History

variable {cs : TlsCipherSuite} {π : Type}

/-- Where the decrypted bytes stand in the reader's buffer, and how many have been taken. -/
@[ext] structure DecryptedBufferInfo where
  offset : Nat
  len : Nat
  consumed : Nat
  consumed_le : consumed ≤ len
  deriving DecidableEq

namespace DecryptedBufferInfo

def default : DecryptedBufferInfo := ⟨0, 0, 0, Nat.le_refl 0⟩

def isEmpty (info : DecryptedBufferInfo) : Bool := info.len - info.consumed == 0

/-- `&buffer[offset + consumed..offset + len]`. -/
def createReadBuffer (info : DecryptedBufferInfo) (buffer : Bytes) : Except Stop Bytes :=
  if info.offset + info.len ≤ buffer.length then
    .ok ((buffer.drop (info.offset + info.consumed)).take (info.len - info.consumed))
  else .error .panic

/-- `count` bytes are popped, or as many as there are. -/
def pop (info : DecryptedBufferInfo) (count : Nat) : DecryptedBufferInfo :=
  { info with
    consumed := info.consumed + min (info.len - info.consumed) count
    consumed_le := by
      have := info.consumed_le
      omega }

end DecryptedBufferInfo

/-- What `DecryptedReadHandler` refers to: the reader's buffer, the window into it and the
flag of the connection. -/
structure Handling where
  source : Bytes
  bufferInfo : DecryptedBufferInfo
  isOpen : Bool
  deriving DecidableEq

namespace Handling

/-- The record was decrypted in place, so its bytes now stand in the buffer at `start`. The
pointer comparison is strict at both ends. -/
def handleData (start : Nat) (data : CryptoBuffer) : EStateM Stop Handling Unit := do
  let h ← get
  let offset := start + data.offset
  let len := data.asSlice.length
  if offset < h.source.length ∧ offset + len < h.source.length then
    set { h with
      source := splice h.source start data.buf
      bufferInfo := ⟨offset, len, 0, Nat.zero_le len⟩ }
  else throw .panic

def handle (start : Nat) : ServerRecord cs → EStateM Stop Handling Unit
  | .applicationData data => handleData start data.data
  | .alert alert =>
      if alert.description = .closeNotify then do
        modify fun h => { h with isOpen := false }
        throw (.err .connectionClosed)
      else throw (.err .internalError)
  | .changeCipherSpec => throw (.err .internalError)
  | .handshake .newSessionTicket => pure ()
  | .handshake _ => throw .panic

end Handling

inductive FlushPolicy
  | relaxed
  | strict
  deriving DecidableEq, Repr

def FlushPolicy.flushTransport : FlushPolicy → Bool
  | relaxed => false
  | strict => true

structure TlsConnection (cs : TlsCipherSuite) where
  channel : Channel cs
  opened : Bool
  decrypted : DecryptedBufferInfo
  flushPolicy : FlushPolicy

namespace TlsConnection

abbrev M (cs : TlsCipherSuite) := EStateM Stop (TlsConnection cs)

def onChannel {α : Type} (x : Channel.M cs α) : M cs α :=
  onPart (·.channel) (fun c channel => { c with channel }) x

def flush (P : Primitives cs) : M cs Unit := do
  let c ← get
  if !c.channel.buffer.isEmpty then do
    let slice ← onChannel (Channel.closeRecord P)
    onChannel (Channel.transmit slice)
    if c.flushPolicy.flushTransport then onChannel Channel.flushTransport

def startRecord (P : Primitives cs) : M cs Unit := do
  if !(← get).channel.buffer.contains .applicationData then do
    flush P
    onChannel (Channel.onBuffer (WriteBuffer.startRecord .applicationData))

/-- How much of `buf` was taken. -/
def write (P : Primitives cs) (buf : Bytes) : M cs Nat := do
  if (← get).opened then do
    startRecord P
    let buffered ← onChannel (Channel.onBuffer (WriteBuffer.append buf))
    if ← fromResult (← get).channel.buffer.isFull then flush P
    return buffered
  else throw (.err .missingHandshake)

def closeInternal (P : Primitives cs) : M cs Unit := do
  flush P
  let opened := (← get).opened
  let slice ← onChannel (Channel.writeRecord P (.closeNotify opened))
  onChannel (Channel.transmit slice)
  onChannel Channel.flushTransport

def handling (c : TlsConnection cs) : Reading cs Handling :=
  ⟨c.channel.schedule.serverState, ⟨c.channel.intake.reader.buf, c.decrypted, c.opened⟩⟩

def putHandling (c : TlsConnection cs) (r : Reading cs Handling) : TlsConnection cs where
  channel := { c.channel with
    intake.reader.buf := r.captured.source
    schedule.serverState := r.schedule }
  opened := r.captured.isOpen
  decrypted := r.captured.bufferInfo
  flushPolicy := c.flushPolicy

def readApplicationData (P : Primitives cs) : M cs Unit := do
  let (start, record) ← onChannel (Channel.read P)
  onPart handling putHandling
    (decryptRecord P (fun record => Reading.onCaptured (Handling.handle start record)) record)

/-- `while self.decrypted.is_empty()`. Every turn takes a record, so the bytes there are to take
bound the number of turns. -/
def fillWindow (P : Primitives cs) : Nat → M cs Unit
  | 0 => pure ()
  | n+1 => do
      if (← get).decrypted.isEmpty then do
        readApplicationData P
        fillWindow P n
      else pure ()

/-- The bytes of a read buffer. -/
def createReadBuffer : M cs Bytes := do
  let c ← get
  fromResult (c.decrypted.createReadBuffer c.channel.intake.reader.buf)

def readBuffered (P : Primitives cs) : M cs Bytes := do
  let c ← get
  if c.opened then do
    fillWindow P (c.channel.intake.size + 1)
    createReadBuffer
  else throw (.err .missingHandshake)

/-- Pop from a read buffer and drop it. -/
def pop (count : Nat) : M cs Bytes := do
  let data ← createReadBuffer
  modify fun c => { c with decrypted := c.decrypted.pop count }
  return data.take count

/-- Read into a buffer of `n` bytes. -/
def read (P : Primitives cs) (n : Nat) : M cs Bytes := do
  if n = 0 then return []
  else do
    let _ ← readBuffered P
    pop n

end TlsConnection

/-- A connection being opened, a connection, and what is left of one after `close` or a panic. -/
inductive Phase (cs : TlsCipherSuite) (π : Type)
  | opening (o : Opening cs π) (state : State) (flushPolicy : FlushPolicy)
  | connected (c : TlsConnection cs)
  | gone (c : TlsConnection cs)

/-- A turn of the loop in `open`, a turn of the loop in `read_buffered`, and the other calls.
`peek` shows what the read buffer holds without taking it. -/
inductive Call
  | process
  | turn
  | peek
  | pop (count : Nat)
  | write (buf : Bytes)
  | flush
  | close
  deriving DecidableEq

inductive Answer
  | state (state : State)
  | done
  | count (n : Nat)
  | bytes (bytes : Bytes)
  deriving DecidableEq

namespace Phase

/-- The connection a phase is, or will be. -/
def connection : Phase cs π → TlsConnection cs
  | opening o _ flushPolicy => ⟨o.channel, false, .default, flushPolicy⟩
  | connected c => c
  | gone c => c

/-- A routine that failed leaves the connection to its owner; one that panicked does not. -/
def leftBy (c : TlsConnection cs) : Stop → Phase cs π
  | .panic => gone c
  | _ => connected c

def answered {α : Type} (answer : α → Answer) :
    EStateM.Result Stop (TlsConnection cs) α → Option (Except Stop Answer) × Phase cs π
  | .ok a c => (some (.ok (answer a)), connected c)
  | .error e c => (some (.error e), leftBy c e)

/-- One turn of the loop in `open`. -/
def processed (flushPolicy : FlushPolicy) :
    EStateM.Result Stop (Opening cs π) State → Option (Except Stop Answer) × Phase cs π
  | .ok .applicationData o =>
      (some (.ok (.state .applicationData)), connected ⟨o.channel, true, .default, flushPolicy⟩)
  | .ok state o => (some (.ok (.state state)), opening o state flushPolicy)
  | .error e o => (some (.error e), leftBy ⟨o.channel, false, .default, flushPolicy⟩ e)

/-- A call that is not possible in a phase gets no answer. -/
def step (P : Primitives cs) (pr : CryptoProvider π) :
    Phase cs π → Call → Option (Except Stop Answer) × Phase cs π
  | opening o state flushPolicy, .process => processed flushPolicy (o.process P pr state)
  | connected c, .turn =>
      if c.opened ∧ c.decrypted.isEmpty then answered (fun _ => .done) (c.readApplicationData P)
      else (none, connected c)
  | connected c, .peek => answered .bytes (c.createReadBuffer)
  | connected c, .pop count => answered .bytes (c.pop count)
  | connected c, .write buf => answered .count (c.write P buf)
  | connected c, .flush => answered (fun _ => .done) (c.flush P)
  | connected c, .close => (((answered (fun _ => .done) (c.closeInternal P)) :
      Option (Except Stop Answer) × Phase cs π).1, gone (after (c.closeInternal P)))
  | phase, _ => (none, phase)

end Phase

abbrev ClientEvent (cs : TlsCipherSuite) (π : Type) :=
  Event (Phase cs π) Call (Option (Except Stop Answer))

end GatoPskTls.Client
