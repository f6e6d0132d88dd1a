import GatoPskTls.Lib.Simulation
import GatoPskTls.Lib.Threads
import GatoPskTls.Client.ReceiveStream

/-!
# The halves of a split connection

`split` gives the reading and the writing side of a connection to two owners, who may call at the
same time. The halves have nothing in common but the flag that says whether the connection is
open. Their routines are cut at every call to the transport and at every access to the flag, and
whatever happens in between, the calls get the answers the unsplit connection would have given
to one after the other.
-/
namespace GatoPskTls.Client

open Stateful Threads History ReadBuffer

variable {cs : TlsCipherSuite}

namespace Stepwise

def fillHeader : Nat → Bytes → Thread Stop Incoming Bytes
  | 0, buf => pure buf
  | n+1, buf => do
      if buf.length = RecordHeader.LEN then pure buf
      else do
        let read ← .atom (Incoming.read (RecordHeader.LEN - buf.length))
        if read.isEmpty then .throw (.err .ioError) else fillHeader n (buf ++ read)

def nextRecordHeader : Thread Stop Incoming RecordHeader := do
  let buf ← fillHeader RecordHeader.LEN []
  if h : buf.length = 5 then .done ((RecordHeader.decode ⟨buf, h⟩).mapError .err)
  else .throw .panic

def fillPending (amount : Nat) : Nat → Nat → Thread Stop Intake Unit
  | 0, _ => pure ()
  | n+1, remain => do
      let r := (← .atom get).reader
      if r.pending < amount then
        if r.decoded + r.pending + remain > r.buf.length then .throw .panic
        else do
          let read ← .atom (RecordReader.onTransport (Incoming.read remain))
          if read.isEmpty then .throw (.err .ioError)
          else do
            .atom (RecordReader.onReader (modify fun r => { r with
              buf := Splice.splice r.buf (r.decoded + r.pending) read
              pending := r.pending + read.length }))
            fillPending amount n (remain - read.length)
      else pure ()

def advance (amount : Nat) : Thread Stop Intake Unit := do
  .atom (RecordReader.onReader (RecordReader.ensureContiguous amount))
  fillPending amount amount amount

def fetch : Thread Stop Intake RecordReader.Fetched := do
  let header ← nextRecordHeader.onPart (·.transport) fun i transport => { i with transport }
  advance header.contentLength
  let (start, body) ← .atom (RecordReader.onReader (RecordReader.takeBody header.contentLength))
  return { header, start, body }

theorem run_fillHeader (n : Nat) (buf : Bytes) :
    (fillHeader n buf).run = GatoPskTls.fillHeader n buf := by
  induction n generalizing buf with
  | zero => rfl
  | succ n ih =>
      simp only [fillHeader, GatoPskTls.fillHeader]
      split
      · rfl
      · rw [Thread.run_bind, Thread.run_atom]
        refine bind_congr fun read => ?_
        split
        · rfl
        · exact ih _

theorem run_nextRecordHeader : nextRecordHeader.run = GatoPskTls.nextRecordHeader := by
  rw [nextRecordHeader, Thread.run_bind, run_fillHeader, GatoPskTls.nextRecordHeader]
  refine bind_congr fun buf => ?_
  split
  · rfl
  · rfl

theorem run_fillPending (amount n remain : Nat) :
    (fillPending amount n remain).run = RecordReader.fillPending amount n remain := by
  induction n generalizing remain with
  | zero => rfl
  | succ n ih =>
      simp only [fillPending, RecordReader.fillPending, Thread.run_bind, Thread.run_atom]
      refine bind_congr fun i => ?_
      split
      · split
        · rfl
        · rw [Thread.run_bind, Thread.run_atom]
          refine bind_congr fun read => ?_
          split
          · rfl
          · rw [Thread.run_bind, Thread.run_atom]
            exact bind_congr fun _ => ih _
      · rfl

theorem transport_isPart :
    IsPart Intake.transport fun i transport => { i with transport } :=
  ⟨fun _ _ => rfl, fun _ _ _ => rfl, fun _ => rfl⟩

theorem run_fetch : fetch.run = RecordReader.fetch := by
  simp only [fetch, RecordReader.fetch, Thread.run_bind, Thread.run_onPart transport_isPart,
    run_nextRecordHeader, advance, RecordReader.advance, run_fillPending, Thread.run_atom,
    Thread.run_pure, RecordReader.onTransport]

end Stepwise

/-- What `TlsReader` has to itself. -/
structure ReaderHalf (cs : TlsCipherSuite) where
  intake : Intake
  schedule : ReadKeySchedule cs
  decrypted : DecryptedBufferInfo

namespace ReaderHalf

def onIntake {α : Type} (x : Thread Stop Intake α) : Thread Stop (ReaderHalf cs) α :=
  x.onPart (·.intake) fun half intake => { half with intake }

def onTranscript {α : Type} (x : EStateM Stop Bytes α) : EStateM Stop (ReaderHalf cs) α :=
  onPart (·.schedule.transcriptHash)
    (fun half transcript => { half with schedule.transcriptHash := transcript }) x

def readRecord (P : Primitives cs) : Thread Stop (ReaderHalf cs) (Nat × ServerRecord cs) := do
  let fetched ← onIntake Stepwise.fetch
  let record ← .atom (onTranscript (ServerRecord.decode P fetched.header fetched.body))
  return (fetched.start, record)

def handling (half : ReaderHalf cs) (opened : Bool) : Reading cs Handling :=
  ⟨half.schedule, ⟨half.intake.reader.buf, half.decrypted, opened⟩⟩

def putHandling (half : ReaderHalf cs) (r : Reading cs Handling) : ReaderHalf cs where
  intake := { half.intake with reader.buf := r.captured.source }
  schedule := r.schedule
  decrypted := r.captured.bufferInfo

/-- The result of `decrypt_record`, and what has become of the copy of the flag the handler was
given. -/
def decrypt (P : Primitives cs) (start : Nat) (record : ServerRecord cs) (opened : Bool) :
    EStateM Stop (ReaderHalf cs) (Except Stop Unit × Bool) := fun half =>
  match decryptRecord P (handler start) record (half.handling opened) with
  | .ok () r => .ok (.ok (), r.captured.isOpen) (half.putHandling r)
  | .error .panic r => .error .panic (half.putHandling r)
  | .error e r => .ok (.error e, r.captured.isOpen) (half.putHandling r)

def createReadBuffer : EStateM Stop (ReaderHalf cs) Bytes := do
  let half ← get
  fromResult (half.decrypted.createReadBuffer half.intake.reader.buf)

def lend (data : Bytes) (calls : List BufferCall) (release : Release) :
    EStateM Stop (ReaderHalf cs) Served := do
  let (slices, buffer) := callAll calls (.new data)
  modify fun half => { half with decrypted := half.decrypted.pop (buffer.released release) }
  return { data, slices }

def pop (count : Nat) : EStateM Stop (ReaderHalf cs) Bytes := do
  let data ← createReadBuffer
  modify fun half => { half with decrypted := half.decrypted.pop count }
  return data.take count

end ReaderHalf

namespace TlsReader

/-- The flag, which the writer may look at between any two steps, and the half itself. -/
abbrev T (cs : TlsCipherSuite) := Thread Stop (Bool × ReaderHalf cs)

def onHalf {α : Type} (x : Thread Stop (ReaderHalf cs) α) : T cs α :=
  x.onPart Prod.snd fun s half => (s.1, half)

def load : T cs Bool := .atom do return (← get).1

def store (opened : Bool) : T cs Unit := .atom (modify fun s => (opened, s.2))

/-- The flag is stored when the handler has cleared its copy. -/
def report (result : Except Stop Unit) (opened : Bool) : T cs Unit := do
  if !opened then store false
  .done result

def readApplicationData (P : Primitives cs) : T cs Unit := do
  let (start, record) ← onHalf (ReaderHalf.readRecord P)
  let opened ← load
  let (result, opened) ← onHalf (.atom (ReaderHalf.decrypt P start record opened))
  report result opened

def fillWindow (P : Primitives cs) : Nat → T cs Unit
  | 0 => pure ()
  | n+1 => do
      if (← onHalf (.atom get)).decrypted.isEmpty then do
        readApplicationData P
        fillWindow P n
      else pure ()

def readBuffered (P : Primitives cs) : T cs Bytes := do
  if ← load then do
    fillWindow P ((← onHalf (.atom get)).intake.size + 1)
    onHalf (.atom ReaderHalf.createReadBuffer)
  else .throw (.err .missingHandshake)

def read (P : Primitives cs) (n : Nat) : T cs Bytes := do
  if n = 0 then return []
  else do
    let _ ← readBuffered P
    onHalf (.atom (ReaderHalf.pop n))

def readBufferedWith (P : Primitives cs) (calls : List BufferCall)
    (release : Release) : T cs Served := do
  let data ← readBuffered P
  onHalf (.atom (ReaderHalf.lend data calls release))

def consume (amt : Nat) : T cs Served := onHalf <| .atom do
  let data ← ReaderHalf.createReadBuffer
  ReaderHalf.lend data [.pop amt] .drop

def runCall (P : Primitives cs) : ReadCall → T cs Served
  | .read len => do
      let bytes ← read P len
      return ⟨bytes, [(.popInto len, bytes)]⟩
  | .readBuffered calls release => readBufferedWith P calls release
  | .fillBuf => readBufferedWith P [.peekAll] .drop
  | .consume amt => consume amt

end TlsReader

/-- What `TlsWriter` has to itself. -/
structure WriterHalf (cs : TlsCipherSuite) where
  outgoing : Outgoing cs
  buffer : WriteBuffer
  schedule : WriteKeySchedule cs
  flushPolicy : FlushPolicy

inductive WriteCall
  | write (buf : Bytes)
  | flush
  deriving DecidableEq

namespace TlsWriter

abbrev T (cs : TlsCipherSuite) := Thread Stop (WriterHalf cs)

def onOutgoing {α : Type} (x : EStateM Stop (Outgoing cs) α) : EStateM Stop (WriterHalf cs) α :=
  onPart (·.outgoing) (fun half outgoing => { half with outgoing }) x

def onBuffer {α : Type} (x : WriteBuffer.M α) : EStateM Stop (WriterHalf cs) α :=
  onPart (·.buffer) (fun half buffer => { half with buffer }) x

def onState {α : Type} (x : EStateM Stop (KeyScheduleState cs) α) : EStateM Stop (WriterHalf cs) α :=
  onPart (·.schedule.state) (fun half state => { half with schedule.state := state }) x

def closeRecord (P : Primitives cs) : EStateM Stop (WriterHalf cs) Bytes := do
  let s := (← get).schedule.state
  onBuffer (WriteBuffer.closeRecord P s)

def writeAll (slice : Bytes) : EStateM Stop (WriterHalf cs) Unit := do
  let s := (← get).schedule.state
  onOutgoing (Outgoing.writeAll s slice)

def flush (P : Primitives cs) : T cs Unit := do
  let half ← .atom get
  if !half.buffer.isEmpty then do
    let slice ← .atom (closeRecord P)
    .atom (writeAll slice)
    .atom (onState KeyScheduleState.incrementCounter)
    if half.flushPolicy.flushTransport then .atom (onOutgoing Outgoing.flush)

def startRecord (P : Primitives cs) : T cs Unit := do
  if !(← .atom get).buffer.contains .applicationData then do
    flush P
    .atom (onBuffer (WriteBuffer.startRecord .applicationData))

/-- The flag is looked at first, and not again. -/
def write (P : Primitives cs) (buf : Bytes) (opened : Bool) : T cs Nat := do
  if opened then do
    startRecord P
    let buffered ← .atom (onBuffer (WriteBuffer.append buf))
    if ← .done (← .atom get).buffer.isFull then flush P
    return buffered
  else .throw (.err .missingHandshake)

/-- How much a `write` has taken. -/
def runCall (P : Primitives cs) : WriteCall → Bool → T cs (Option Nat)
  | .write buf, opened => do return some (← write P buf opened)
  | .flush, _ => do
      flush P
      return none

end TlsWriter

/-- Both halves in use. -/
abbrev Halves (cs : TlsCipherSuite) :=
  Running Stop Bool (ReaderHalf cs) (WriterHalf cs) ReadCall WriteCall Served (Option Nat)

abbrev HalvesEvent (cs : TlsCipherSuite) :=
  Moment Stop Bool (ReaderHalf cs) (WriterHalf cs) ReadCall WriteCall Served (Option Nat)

def halves (P : Primitives cs) :
    Calls Stop Bool (ReaderHalf cs) (WriterHalf cs) ReadCall WriteCall Served (Option Nat) :=
  ⟨TlsReader.runCall P, TlsWriter.runCall P⟩

/-- The flag is cleared with an error, if at all. -/
def Clears (x : Reading.M cs Handling Unit) : Prop := ∀ r, Ends (x r)
  (fun _ r' => r'.captured.isOpen = r.captured.isOpen)
  (fun e r' => r'.captured.isOpen = r.captured.isOpen ∨ r'.captured.isOpen = false ∧ e ≠ .panic)

namespace Clears

theorem of_captured {x : Reading.M cs Handling Unit} (h : Keeps SameCaptured x) : Clears x := fun r =>
  (Ends.of_keeps h r).mono (fun _ _ hr => congrArg Handling.isOpen hr)
    fun _ _ hr => .inl (congrArg Handling.isOpen hr)

theorem bind {α : Type} {x : Reading.M cs Handling α} {f : α → Reading.M cs Handling Unit}
    (hx : Keeps SameCaptured x) (hf : ∀ a, Clears (f a)) : Clears (x >>= f) := by
  intro r
  refine .bind ((Ends.of_keeps hx r).mono (fun a r₁ hr => ?_) fun _ _ hr =>
    .inl (congrArg Handling.isOpen hr))
  rw [← show r₁.captured = r.captured from hr]
  exact hf a r₁

theorem seq {x y : Reading.M cs Handling Unit} (hx : Clears x) (hy : Clears y) :
    Clears (x >>= fun _ => y) := by
  intro r
  refine .bind ((hx r).mono (fun _ r₁ hr => ?_) fun _ _ hr => hr)
  rw [← hr]
  exact hy r₁

end Clears

theorem clears_handler (start : Nat) (record : ServerRecord cs) : Clears (handler start record) := by
  cases record with
  | applicationData data =>
      intro r
      simp only [handler, Reading.onCaptured, Handling.handle, Handling.handleData]
      refine .onPart ?_
      rw [get_bind_apply]
      split
      · exact rfl
      · exact .inl rfl
  | alert alert =>
      intro r
      obtain ⟨e, he⟩ := @handler_alert cs start r alert
      rw [he]
      by_cases ha : alert.description = .closeNotify
      · exact .inr ⟨by simp [ha], Stop.noConfusion⟩
      · exact .inl (by simp [ha])
  | changeCipherSpec => exact fun r => .inl rfl
  | handshake message => exact .of_captured (keeps_handler_message start message)

theorem clears_decryptRecord (P : Primitives cs) (start : Nat) (record : ServerRecord cs) :
    Clears (decryptRecord P (handler start) record) := by
  have hmessages : ∀ n buf, Clears (deliverMessages P (handler start) n buf) := by
    intro n
    induction n with
    | zero => exact fun buf => .of_captured (.pure _)
    | succ n ih =>
        intro buf
        simp only [deliverMessages]
        split
        · exact .bind (keeps_readMessage P buf) fun read => .seq (clears_handler start _) (ih read.2)
        · exact .of_captured (.pure _)
  have hdeliver : ∀ header appData contentType,
      Clears (deliver P (handler start) header appData contentType) := by
    intro header appData contentType
    cases contentType with
    | handshake => exact hmessages _ _
    | applicationData => exact clears_handler start _
    | alert => exact .bind (Keeps.fromResult _) fun _ => clears_handler start _
    | invalid => exact .of_captured (.throw _)
    | changeCipherSpec => exact .of_captured (.throw _)
  cases record with
  | applicationData data =>
      exact .bind Keeps.get fun _ => .bind (Keeps.fromResult _) fun _ =>
        .seq (hdeliver _ _ _) (.of_captured (keeps_onState _))
  | handshake message => exact clears_handler start _
  | changeCipherSpec => exact clears_handler start _
  | alert alert => exact clears_handler start _

namespace TlsConnection

/-- The parts `split` hands out. -/
def split (c : TlsConnection cs) : Shared Bool (ReaderHalf cs) (WriterHalf cs) where
  flag := c.opened
  left := ⟨c.channel.intake, c.channel.schedule.serverState, c.decrypted⟩
  right := ⟨c.channel.outgoing, c.channel.buffer, c.channel.schedule.clientState, c.flushPolicy⟩

/-- The connection once the halves are given back. -/
def rejoin (c : TlsConnection cs) (s : Shared Bool (ReaderHalf cs) (WriterHalf cs)) :
    TlsConnection cs where
  channel := {
    intake := s.left.intake
    outgoing := s.right.outgoing
    buffer := s.right.buffer
    schedule := ⟨c.channel.schedule.shared, s.right.schedule, s.left.schedule⟩ }
  opened := s.flag
  decrypted := s.left.decrypted
  flushPolicy := s.right.flushPolicy

/-- The flag and the reading half. -/
def reader : Part (TlsConnection cs) (Bool × ReaderHalf cs) where
  view c := (c.split.flag, c.split.left)
  put c s := c.rejoin ⟨s.1, s.2, c.split.right⟩
  isPart := ⟨fun _ _ => rfl, fun _ _ _ => rfl, fun _ => rfl⟩

/-- The writing half. -/
def writer : Part (TlsConnection cs) (WriterHalf cs) where
  view c := c.split.right
  put c half := c.rejoin { c.split with right := half }
  isPart := ⟨fun _ _ => rfl, fun _ _ _ => rfl, fun _ => rfl⟩

end TlsConnection

namespace TlsReader

open TlsConnection

theorem half_isPart : IsPart Prod.snd fun (s : Bool × ReaderHalf cs) half => (s.1, half) :=
  ⟨fun _ _ => rfl, fun _ _ _ => rfl, fun _ => rfl⟩

theorem intake_isPart : IsPart (@ReaderHalf.intake cs) fun half intake => { half with intake } :=
  ⟨fun _ _ => rfl, fun _ _ _ => rfl, fun _ => rfl⟩

theorem within_onHalf {α : Type} (x : EStateM Stop (ReaderHalf cs) α) (c : TlsConnection cs) :
    reader.within (onHalf (.atom x)) c = onPart (·.split.left)
      (fun c half => c.rejoin { c.split with left := half }) x c := by
  simp only [Part.within, onHalf, Thread.run_onPart half_isPart, Thread.run_atom, onPart, reader]
  cases x c.split.left with
  | ok a half => rfl
  | error e half => rfl

/-- With nobody else around, an atom is as good as its parts. -/
theorem within_onHalf_bind {α β : Type} (x : EStateM Stop (ReaderHalf cs) α)
    (f : α → EStateM Stop (ReaderHalf cs) β) : reader.within (onHalf (.atom (x >>= f))) =
      reader.within (onHalf (.atom x)) >>= fun a => reader.within (onHalf (.atom (f a))) := by
  simp only [Part.within, onHalf, Thread.run_onPart half_isPart, Thread.run_atom, half_isPart.onPart_bind,
    reader.isPart.onPart_bind]

theorem within_load_bind {α : Type} (f : Bool → T cs α) :
    reader.within (load >>= f) = get >>= fun c => reader.within (f c.opened) :=
  reader.within_look_bind (g := Prod.fst) (fun _ => rfl) f

theorem within_get_bind {α : Type} (f : ReaderHalf cs → T cs α) :
    reader.within (onHalf (.atom get) >>= f) = get >>= fun c => reader.within (f c.split.left) :=
  reader.within_look_bind (g := Prod.snd) (fun _ => rfl) f

theorem channel_isPart : IsPart (@TlsConnection.channel cs) fun c channel => { c with channel } :=
  ⟨fun _ _ => rfl, fun _ _ _ => rfl, fun _ => rfl⟩

theorem inbound_isPart : IsPart (fun c : Channel cs => (⟨c.intake, c.schedule.serverState⟩ : Inbound cs))
    fun c i => { c with intake := i.intake, schedule.serverState := i.schedule } :=
  ⟨fun _ _ => rfl, fun _ _ _ => rfl, fun _ => rfl⟩

theorem within_readRecord (P : Primitives cs) :
    reader.within (onHalf (ReaderHalf.readRecord P)) = onChannel (Channel.read P) := by
  simp only [Part.within, onHalf, Thread.run_onPart half_isPart, ReaderHalf.readRecord, Thread.run_bind,
    ReaderHalf.onIntake, Thread.run_onPart intake_isPart, Stepwise.run_fetch, Thread.run_atom,
    Thread.run_pure, half_isPart.onPart_bind, reader.isPart.onPart_bind, half_isPart.onPart_pure,
    reader.isPart.onPart_pure, onPart_onPart, ReaderHalf.onTranscript]
  simp only [onChannel, Channel.read, Channel.onInbound, Inbound.read, inbound_isPart.onPart_bind,
    channel_isPart.onPart_bind, inbound_isPart.onPart_pure, channel_isPart.onPart_pure,
    Inbound.onIntake, Inbound.onTranscript, onPart_onPart]
  rfl

theorem within_report (result : Except Stop Unit) (opened : Bool) (c : TlsConnection cs) :
    reader.within (report result opened) c = fromResult result { c with opened := c.opened && opened } := by
  cases opened with
  | false =>
      rw [Bool.and_false]
      exact (congrFun (reader.within_bind _ _) c).trans
        ((bind_of_ok rfl).trans (congrFun (reader.within_done result) _))
  | true =>
      rw [Bool.and_true]
      exact congrFun (reader.within_done result) c

/-- The copy of the flag is as good as the flag. -/
theorem within_readApplicationData (P : Primitives cs) :
    reader.within (readApplicationData P) = TlsConnection.readApplicationData P := by
  rw [readApplicationData, reader.within_bind, within_readRecord, TlsConnection.readApplicationData]
  refine bind_congr fun fetched => ?_
  obtain ⟨start, record⟩ := fetched
  funext c
  rw [within_load_bind, get_bind_apply, reader.within_bind]
  have hclears := clears_decryptRecord P start record (c.split.left.handling c.opened)
  change _ = onPart handling putHandling (decryptRecord P (handler start) record) c
  have hreport : ∀ {result : Except Stop Unit} {r : Reading cs Handling},
      ReaderHalf.decrypt P start record c.opened c.split.left =
        .ok (result, r.captured.isOpen) (c.split.left.putHandling r) →
      (c.opened && r.captured.isOpen) = r.captured.isOpen →
      (reader.within (onHalf (.atom (ReaderHalf.decrypt P start record c.opened))) >>=
        fun x => reader.within (report x.1 x.2)) c = fromResult result (c.putHandling r) := by
    intro result r hdecrypt hopen
    rw [bind_of_ok ((within_onHalf _ c).trans (onPart_of_ok hdecrypt))]
    refine (within_report _ _ _).trans ?_
    simp [rejoin, split, putHandling, ReaderHalf.putHandling, hopen]
  cases hrun : decryptRecord P (handler start) record (c.split.left.handling c.opened) with
  | ok u r =>
      have hopen : r.captured.isOpen = c.opened := hclears.ok hrun
      rw [show onPart handling putHandling (decryptRecord P (handler start) record) c = _ from
        onPart_of_ok hrun]
      exact @hreport (.ok ()) r (by simp only [ReaderHalf.decrypt, hrun]) (by rw [hopen, Bool.and_self])
  | error e r =>
      rw [show onPart handling putHandling (decryptRecord P (handler start) record) c = _ from
        onPart_of_error hrun]
      by_cases hpanic : e = .panic
      · subst hpanic
        have hopen : r.captured.isOpen = c.opened := (hclears.error hrun).resolve_right fun h => h.2 rfl
        have hdecrypt : ReaderHalf.decrypt P start record c.opened c.split.left =
            .error .panic (c.split.left.putHandling r) := by
          simp only [ReaderHalf.decrypt, hrun]
        rw [bind_of_error ((within_onHalf _ c).trans (onPart_of_error hdecrypt))]
        simp [rejoin, split, putHandling, ReaderHalf.putHandling, hopen]
      · refine @hreport (.error e) r (by simp only [ReaderHalf.decrypt, hrun]) ?_
        rcases hclears.error hrun with h | ⟨h, -⟩
        · rw [h]
          exact Bool.and_self _
        · rw [h, Bool.and_false]

theorem within_fillWindow (P : Primitives cs) (n : Nat) :
    reader.within (fillWindow P n) = TlsConnection.fillWindow P n := by
  induction n with
  | zero => exact reader.within_pure ()
  | succ n ih =>
      rw [fillWindow, within_get_bind, TlsConnection.fillWindow]
      refine bind_congr fun c => ?_
      change reader.within (if c.decrypted.isEmpty then _ else _) = _
      split
      · rw [Part.within_bind, within_readApplicationData, ih]
      · exact reader.within_pure ()

theorem within_createReadBuffer :
    reader.within (onHalf (.atom ReaderHalf.createReadBuffer)) = @TlsConnection.createReadBuffer cs := by
  funext c
  rw [within_onHalf]
  simp only [onPart, ReaderHalf.createReadBuffer, TlsConnection.createReadBuffer, get_bind_apply, split]
  cases c.decrypted.createReadBuffer c.channel.intake.reader.buf with
  | ok data => rfl
  | error e => rfl

theorem within_readBuffered (P : Primitives cs) :
    reader.within (readBuffered P) = TlsConnection.readBuffered P := by
  funext c
  rw [readBuffered, within_load_bind, TlsConnection.readBuffered, get_bind_apply, get_bind_apply]
  split
  · rw [within_get_bind, get_bind_apply, reader.within_bind, within_fillWindow, within_createReadBuffer]
    rfl
  · exact congrFun (reader.within_done _) c

theorem within_lend (data : Bytes) (calls : List BufferCall) (release : Release) :
    reader.within (onHalf (.atom (ReaderHalf.lend data calls release))) =
      @TlsConnection.lend cs data calls release := by
  funext c
  exact within_onHalf _ c

theorem within_read (P : Primitives cs) (n : Nat) : reader.within (read P n) = TlsConnection.read P n := by
  rw [read, TlsConnection.read]
  split
  · exact reader.within_pure _
  · rw [Part.within_bind, within_readBuffered]
    refine bind_congr fun _ => ?_
    rw [ReaderHalf.pop, within_onHalf_bind, within_createReadBuffer]
    exact bind_congr fun data => funext fun c => within_onHalf _ c

theorem within_runCall (P : Primitives cs) (call : ReadCall) :
    reader.within (runCall P call) = TlsConnection.runCall P call := by
  have hbuffered : ∀ calls release, reader.within (readBufferedWith P calls release) =
      TlsConnection.readBufferedWith P calls release := by
    intro calls release
    rw [readBufferedWith, reader.within_bind, within_readBuffered]
    exact bind_congr fun data => within_lend data calls release
  cases call with
  | read len =>
      rw [runCall, reader.within_bind, within_read]
      exact bind_congr fun bytes => reader.within_pure _
  | readBuffered calls release => exact hbuffered calls release
  | fillBuf => exact hbuffered _ _
  | consume amt =>
      rw [runCall, consume, within_onHalf_bind, within_createReadBuffer]
      exact bind_congr fun data => within_lend data _ _

end TlsReader

namespace TlsWriter

open TlsConnection

theorem within_get_bind {α : Type} (f : WriterHalf cs → T cs α) :
    writer.within (.atom get >>= f) = get >>= fun c => writer.within (f c.split.right) :=
  writer.within_look_bind (g := id) (fun _ => rfl) f

theorem within_onBuffer {α : Type} (x : WriteBuffer.M α) :
    writer.within (.atom (onBuffer x)) = (onChannel (Channel.onBuffer x) : TlsConnection.M cs α) := by
  rw [writer.within_atom, onBuffer, onPart_onPart, onChannel, Channel.onBuffer, onPart_onPart]
  rfl

theorem within_closeRecord (P : Primitives cs) :
    writer.within (.atom (closeRecord P)) = onChannel (Channel.closeRecord P) := by
  rw [writer.within_atom, closeRecord, onPart_get_bind, onChannel, Channel.closeRecord, onPart_get_bind]
  refine bind_congr fun c => ?_
  rw [onBuffer, onPart_onPart, Channel.onBuffer, onPart_onPart]
  rfl

theorem within_transmit (slice : Bytes) :
    (writer.within (.atom (writeAll slice)) >>= fun _ =>
      writer.within (.atom (onState KeyScheduleState.incrementCounter))) =
      (onChannel (Channel.transmit slice) : TlsConnection.M cs Unit) := by
  funext c
  simp only [writer.within_atom, writeAll, onPart_get_bind, onState, onOutgoing, onPart_onPart, bind_assoc,
    get_bind_apply, onChannel, Channel.transmit, TlsReader.channel_isPart.onPart_bind,
    Channel.onOutgoing, Channel.onSchedule, KeySchedule.onClient]
  rfl

theorem within_flushTransport :
    writer.within (.atom (onOutgoing Outgoing.flush)) =
      (onChannel Channel.flushTransport : TlsConnection.M cs Unit) := by
  rw [writer.within_atom, onOutgoing, onPart_onPart, onChannel, Channel.flushTransport, Channel.onOutgoing,
    onPart_onPart]
  rfl

theorem within_flush (P : Primitives cs) : writer.within (flush P) = TlsConnection.flush P := by
  rw [flush, within_get_bind, TlsConnection.flush]
  refine bind_congr fun c => ?_
  change writer.within (if (!c.channel.buffer.isEmpty) = true then _ else _) = _
  split
  · rw [Part.within_bind, within_closeRecord]
    refine bind_congr fun slice => ?_
    rw [← within_transmit, writer.within_bind, bind_assoc]
    refine bind_congr fun _ => ?_
    rw [Part.within_bind]
    refine bind_congr fun _ => ?_
    change writer.within (if c.flushPolicy.flushTransport then _ else _) = _
    split
    · exact within_flushTransport
    · exact writer.within_pure ()
  · exact writer.within_pure ()

theorem within_startRecord (P : Primitives cs) :
    writer.within (startRecord P) = TlsConnection.startRecord P := by
  rw [startRecord, within_get_bind, TlsConnection.startRecord]
  refine bind_congr fun c => ?_
  change writer.within (if (!c.channel.buffer.contains .applicationData) = true then _ else _) = _
  split
  · rw [Part.within_bind, within_flush, within_onBuffer]
  · exact writer.within_pure ()

theorem within_write (P : Primitives cs) (buf : Bytes) (c : TlsConnection cs) :
    writer.within (write P buf c.opened) c = TlsConnection.write P buf c := by
  rw [write, TlsConnection.write, get_bind_apply]
  split
  · rw [Part.within_bind, within_startRecord]
    refine congrFun (bind_congr fun _ => ?_) c
    rw [Part.within_bind, within_onBuffer]
    refine bind_congr fun buffered => ?_
    rw [within_get_bind]
    refine bind_congr fun c' => ?_
    rw [Part.within_bind, writer.within_done]
    refine bind_congr fun full => ?_
    cases full with
    | false => exact writer.within_pure buffered
    | true =>
        refine (writer.within_bind _ _).trans ?_
        rw [within_flush]
        exact bind_congr fun _ => writer.within_pure buffered
  · exact congrFun (writer.within_done _) c

end TlsWriter

namespace TlsConnection

def runWrite (P : Primitives cs) : WriteCall → M cs (Option Nat)
  | .write buf => do return some (← write P buf)
  | .flush => do
      flush P
      return none

/-- The unsplit connection, one call after the other. -/
def callStep (P : Primitives cs) (c : TlsConnection cs) :
    ReadCall ⊕ WriteCall → Reply Stop ReadCall WriteCall Served (Option Nat) × TlsConnection cs
  | .inl call => (.inl (call, outcome (runCall P call c)), after (runCall P call c))
  | .inr call => (.inr (call, outcome (runWrite P call c)), after (runWrite P call c))

theorem runWrite_eq (P : Primitives cs) (call : WriteCall) (c : TlsConnection cs) :
    runWrite P call c = writer.within (TlsWriter.runCall P call c.opened) c := by
  cases call with
  | write buf =>
      rw [TlsWriter.runCall, writer.within_bind, runWrite]
      exact (bind_of_eq (TlsWriter.within_write P buf c).symm _).trans
        (congrFun (bind_congr fun n => (writer.within_pure (some n)).symm) c)
  | flush =>
      rw [TlsWriter.runCall, writer.within_bind, TlsWriter.within_flush, runWrite]
      exact congrFun (bind_congr fun _ => (writer.within_pure none).symm) c

/-- Whole calls on the halves are calls on the connection. -/
theorem callStep_rejoin (P : Primitives cs) (c : TlsConnection cs)
    (s : Shared Bool (ReaderHalf cs) (WriterHalf cs)) (call : ReadCall ⊕ WriteCall) :
    callStep P (c.rejoin s) call =
      ((whole (halves P) s call).1, c.rejoin (whole (halves P) s call).2) := by
  cases call with
  | inl call =>
      simp only [callStep, ← TlsReader.within_runCall, Part.within, after_onPart, outcome_onPart]
      rfl
  | inr call =>
      simp only [callStep, runWrite_eq, Part.within, after_onPart, outcome_onPart]
      rfl

end TlsConnection

namespace TlsReader

theorem guarded_load_bind {α : Type} {f : Bool → T cs α} {v : Bool} (h : (f v).Guarded Prod.fst v) :
    (load >>= f).Guarded Prod.fst v := by
  refine .atom_bind fun s hs => ⟨hs, ?_⟩
  rw [hs]
  exact h

theorem guarded_onHalf {α : Type} (x : Thread Stop (ReaderHalf cs) α) (v : Bool) :
    (onHalf x).Guarded Prod.fst v := by
  refine Thread.Guarded.onPart ?_ x v
  exact fun _ _ => rfl

theorem guarded_report {result : Except Stop Unit} {opened v : Bool}
    (h : opened = v ∨ ∃ e, result = .error e) :
    (report result opened : T cs Unit).Guarded Prod.fst v := by
  cases opened with
  | true => trivial
  | false =>
      intro s hs
      rcases h with h | ⟨e, rfl⟩
      · exact .inl ⟨h, trivial⟩
      · exact .inr ⟨e, rfl⟩

/-- The flag is stored last, and with a failure. -/
theorem guarded_readApplicationData (P : Primitives cs) (v : Bool) :
    (readApplicationData P).Guarded Prod.fst v := by
  refine (guarded_onHalf _ v).bind fun fetched => ?_
  obtain ⟨start, record⟩ := fetched
  refine guarded_load_bind ?_
  rw [onHalf, Thread.onPart_atom]
  refine .atom_bind fun s hs => .onPart ?_
  have hclears := clears_decryptRecord P start record (s.2.handling v)
  simp only [ReaderHalf.decrypt]
  cases hrun : decryptRecord P (handler start) record (s.2.handling v) with
  | ok u r => exact ⟨hs, guarded_report (.inl (hclears.ok hrun))⟩
  | error e r =>
      cases e with
      | panic => trivial
      | _ => exact ⟨hs, guarded_report (.inr ⟨_, rfl⟩)⟩

theorem guarded_fillWindow (P : Primitives cs) (n : Nat) (v : Bool) :
    (fillWindow P n).Guarded Prod.fst v := by
  induction n with
  | zero => trivial
  | succ n ih =>
      refine (guarded_onHalf _ v).bind fun half => ?_
      split
      · exact (guarded_readApplicationData P v).bind fun _ => ih
      · trivial

theorem guarded_readBuffered (P : Primitives cs) (v : Bool) :
    (readBuffered P).Guarded Prod.fst v := by
  refine guarded_load_bind ?_
  split
  · exact (guarded_onHalf _ v).bind fun half =>
      (guarded_fillWindow P _ v).bind fun _ => guarded_onHalf _ v
  · trivial

theorem guarded_runCall (P : Primitives cs) (call : ReadCall) (v : Bool) :
    (runCall P call).Guarded Prod.fst v := by
  have hbuffered : ∀ calls release, (readBufferedWith P calls release).Guarded Prod.fst v :=
    fun calls release => (guarded_readBuffered P v).bind fun data => guarded_onHalf _ v
  cases call with
  | read len =>
      have hread : (read P len).Guarded Prod.fst v := by
        rw [read]
        split
        · trivial
        · exact (guarded_readBuffered P v).bind fun _ => guarded_onHalf _ v
      exact hread.bind fun _ => trivial
  | readBuffered calls release => exact hbuffered calls release
  | fillBuf => exact hbuffered _ _
  | consume amt => exact guarded_onHalf _ v

end TlsReader

/-- However the steps of the two halves are mixed, there is one order of the calls in which the
unsplit connection gives the same answers. A call has its place in that order at a moment between
its beginning and its end, and when both halves are idle, the parts are those of the connection. -/
theorem TlsConnection.split_linearizable {P : Primitives cs} {c₀ : TlsConnection cs}
    {h : List (HalvesEvent cs)} {s : Halves cs}
    (hr : Reaches (Running.step (halves P)) (.idle c₀.split) h s) :
    ∃ hs c, Reaches (callStep P) c₀ hs c ∧ hs.map (·.call) = serial h ∧
      hs.filterMap (·.out.getLeft?) = replies Sum.getLeft? h ∧
      hs.filterMap (·.out.getRight?) = owed s ++ replies Sum.getRight? h ∧
      c.opened = s.shared.flag ∧ (s.left = none → s.right = none → c.split = s.shared) := by
  obtain ⟨hs, t, hc⟩ := linearizable (fun call v => TlsReader.guarded_runCall P call v) hr
  refine ⟨_, _, hc.reaches.map c₀.rejoin (callStep_rejoin P c₀), ?_, ?_, ?_, hc.flag, ?_⟩
  · rw [List.map_map]
    exact hc.order
  · rw [List.filterMap_map]
    exact hc.leftReplies
  · rw [List.filterMap_map]
    exact hc.rightReplies
  · intro hleft hright
    have hl := hc.left
    have hr := hc.right
    simp only [LeftBehind, RightAhead, hleft, hright] at hl hr
    calc (c₀.rejoin t).split
      _ = ⟨t.flag, t.left, t.right⟩ := rfl
      _ = ⟨s.shared.flag, s.shared.left, s.shared.right⟩ := by rw [hc.flag, hl, hr]

namespace Peer

/-- While a read waits for its record, two bytes are written and sent off. -/
def overlap : List (Move ReadCall WriteCall) :=
  List.flatten [[.enterLeft (.read 5), .left, .left, .left, .enterRight (.write [7, 8])],
    [.left, .right, .right, .left], .replicate 3 .right, [.enterRight .flush], .replicate 16 .left,
    .replicate 6 .right, .replicate 8 .left]

def overlapped : List (HalvesEvent Peer.cs) × Halves Peer.cs :=
  runAll (Running.step (halves suite)) ([], .idle listener.split) overlap

theorem overlapped_reaches :
    Reaches (Running.step (halves suite)) (.idle listener.split) overlapped.1 overlapped.2 := by
  unfold overlapped
  exact runAll_reaches .nil _

end Peer

theorem overlapped_calls_serialize :
    serial Peer.overlapped.1 = [.inl (.read 5), .inr .flush, .inr (.write [7, 8])] ∧
      ∃ hs c, Reaches (TlsConnection.callStep Peer.suite) Peer.listener hs c ∧
        hs.map (·.call) = serial Peer.overlapped.1 ∧
        hs.filterMap (·.out.getLeft?) = replies Sum.getLeft? Peer.overlapped.1 ∧
        hs.filterMap (·.out.getRight?) = owed Peer.overlapped.2 ++ replies Sum.getRight? Peer.overlapped.1 ∧
        c.opened = Peer.overlapped.2.shared.flag ∧
        (Peer.overlapped.2.left = none → Peer.overlapped.2.right = none →
          c.split = Peer.overlapped.2.shared) :=
  ⟨by decide +kernel, TlsConnection.split_linearizable Peer.overlapped_reaches⟩

end GatoPskTls.Client
