import GatoPskTls.Record

/-!
# Reading records

The record reader gathers one record at a time from a transport that delivers bytes in
chunks of its own choosing and may fail at any call. What was read before a failure stays
in the reader's buffer.
-/
namespace GatoPskTls

open Stateful BigEndian Splice

variable {cs : TlsCipherSuite}

/-- What one call to the transport's `read` finds; `dropped` when the caller gives up on it. -/
inductive Arrival
  | chunk (bytes : Bytes)
  | failure (kind : ErrorKind)
  | dropped
  deriving DecidableEq, Repr

/-- What will arrive; behind the last arrival the peer has closed. -/
abbrev Incoming := List Arrival

/-- How many bytes are still to come. -/
def Incoming.size : Incoming → Nat
  | [] => 0
  | .chunk bytes :: rest => bytes.length + size rest
  | _ :: rest => size rest

/-- `transport.read(&mut buf[..n])`. -/
def Incoming.read (n : Nat) : EStateM Stop Incoming Bytes := fun incoming =>
  match incoming with
  | [] => .ok [] []
  | .failure kind :: rest => .error (.err (.io kind)) rest
  | .dropped :: rest => .error .abandoned rest
  | .chunk bytes :: rest =>
      if bytes.length ≤ n then .ok bytes rest
      else .ok (bytes.take n) (.chunk (bytes.drop n) :: rest)

/-- `while total_read != LEN`. Every turn reads a byte or ends the loop, so `LEN` bounds the
number of turns. -/
def fillHeader : Nat → Bytes → EStateM Stop Incoming Bytes
  | 0, buf => pure buf
  | n+1, buf => do
      if buf.length = RecordHeader.LEN then pure buf
      else do
        let read ← Incoming.read (RecordHeader.LEN - buf.length)
        if read.isEmpty then throw (.err .ioError) else fillHeader n (buf ++ read)

def nextRecordHeader : EStateM Stop Incoming RecordHeader := do
  let buf ← fillHeader RecordHeader.LEN []
  if h : buf.length = 5 then fromResult ((RecordHeader.decode ⟨buf, h⟩).mapError .err)
  else throw .panic

structure RecordReader where
  buf : Bytes
  decoded : Nat
  pending : Nat
  deriving DecidableEq

/-- The reader and the transport it reads from. -/
structure Intake where
  reader : RecordReader
  transport : Incoming
  deriving DecidableEq

/-- How many bytes there are to take, in the buffer and still to come. -/
def Intake.size (i : Intake) : Nat := i.reader.pending + i.transport.size

namespace RecordReader

def new (buf : Bytes) : RecordReader := ⟨buf, 0, 0⟩

def onReader {α : Type} (x : EStateM Stop RecordReader α) : EStateM Stop Intake α :=
  onPart (·.reader) (fun i reader => { i with reader }) x

def onTransport {α : Type} (x : EStateM Stop Incoming α) : EStateM Stop Intake α :=
  onPart (·.transport) (fun i transport => { i with transport }) x

/-- Room for a record's body behind the decoded bytes, or the pending bytes are moved to the
front of the buffer. -/
def ensureContiguous (len : Nat) : EStateM Stop RecordReader Unit := do
  let r ← get
  if r.decoded + len > r.buf.length then
    if len > r.buf.length then throw (.err .insufficientSpace)
    else if r.decoded + r.pending > r.buf.length then throw .panic
    else set { r with buf := splice r.buf 0 ((r.buf.drop r.decoded).take r.pending), decoded := 0 }
  else pure ()

/-- `while *pending < amount`; a slice of the buffer that is out of range is a panic. -/
def fillPending (amount : Nat) : Nat → Nat → EStateM Stop Intake Unit
  | 0, _ => pure ()
  | n+1, remain => do
      let r := (← get).reader
      if r.pending < amount then
        if r.decoded + r.pending + remain > r.buf.length then throw .panic
        else do
          let read ← onTransport (Incoming.read remain)
          if read.isEmpty then throw (.err .ioError)
          else do
            onReader (modify fun r => { r with
              buf := splice r.buf (r.decoded + r.pending) read
              pending := r.pending + read.length })
            fillPending amount n (remain - read.length)
      else pure ()

def advance (amount : Nat) : EStateM Stop Intake Unit := do
  onReader (ensureContiguous amount)
  fillPending amount amount amount

/-- The body of a record leaves the pending bytes: where it stands in the buffer, and the
body itself. -/
def takeBody (contentLen : Nat) : EStateM Stop RecordReader (Nat × Bytes) := do
  let r ← get
  if r.decoded + contentLen > r.buf.length ∨ r.pending < contentLen then throw .panic
  else do
    set { r with decoded := r.decoded + contentLen, pending := r.pending - contentLen }
    return (r.decoded, (r.buf.drop r.decoded).take contentLen)

/-- A record before it is decoded. -/
structure Fetched where
  header : RecordHeader
  start : Nat
  body : Bytes
  deriving DecidableEq

def fetch : EStateM Stop Intake Fetched := do
  let header ← onTransport nextRecordHeader
  advance header.contentLength
  let (start, body) ← onReader (takeBody header.contentLength)
  return { header, start, body }

theorem takeBody_eq_ok {n start : Nat} {body : Bytes} {r r' : RecordReader}
    (h : takeBody n r = .ok (start, body) r') :
    start + n ≤ r.buf.length ∧ body = (r.buf.drop start).take n ∧ r'.buf = r.buf := by
  simp only [takeBody, get_bind_apply] at h
  split at h
  · cases h
  next hc =>
    cases h
    exact ⟨by omega, rfl, rfl⟩

/-- A fetched body stands in the reader's buffer, and is as long as its header says. -/
theorem fetch_eq_ok {i i' : Intake} {f : Fetched} (h : fetch i = .ok f i') :
    f.body.length = f.header.contentLength ∧
      f.start + f.body.length ≤ i'.reader.buf.length ∧
      (i'.reader.buf.drop f.start).take f.body.length = f.body := by
  simp only [fetch, bind_eq_ok] at h
  obtain ⟨header, i₁, -, _, i₂, -, ⟨start, body⟩, i₃, htake, h⟩ := h
  cases h
  obtain ⟨r, hbody, rfl⟩ := onPart_eq_ok.mp htake
  obtain ⟨hle, hbody, hbuf⟩ := takeBody_eq_ok hbody
  have hlen : body.length = header.contentLength := by
    rw [hbody, List.length_take, List.length_drop]
    omega
  refine ⟨hlen, ?_, ?_⟩
  · rw [hlen, hbuf]
    exact hle
  · rw [hlen, hbuf, hbody]

end RecordReader

/-- What reading a record works on. -/
structure Inbound (cs : TlsCipherSuite) where
  intake : Intake
  schedule : ReadKeySchedule cs

namespace Inbound

def onIntake {α : Type} (x : EStateM Stop Intake α) : EStateM Stop (Inbound cs) α :=
  onPart (·.intake) (fun i intake => { i with intake }) x

def onTranscript {α : Type} (x : EStateM Stop Bytes α) : EStateM Stop (Inbound cs) α :=
  onPart (·.schedule.transcriptHash)
    (fun i transcript => { i with schedule.transcriptHash := transcript }) x

/-- The record and where its body stands in the reader's buffer. -/
def read (P : Primitives cs) : EStateM Stop (Inbound cs) (Nat × ServerRecord cs) := do
  let fetched ← onIntake RecordReader.fetch
  let record ← onTranscript (ServerRecord.decode P fetched.header fetched.body)
  return (fetched.start, record)

section Fetched

variable {P : Primitives cs} {i : Inbound cs} {intake : Intake}

theorem read_of_fetch {f : RecordReader.Fetched} (h : RecordReader.fetch i.intake = .ok f intake) :
    read P i =
      match ServerRecord.decode P f.header f.body i.schedule.transcriptHash with
      | .ok record t => .ok (f.start, record) ⟨intake, { i.schedule with transcriptHash := t }⟩
      | .error e t => .error e ⟨intake, { i.schedule with transcriptHash := t }⟩ := by
  have hf : onIntake RecordReader.fetch i = .ok f { i with intake } := onPart_of_ok h
  simp only [read]
  rw [bind_of_ok hf]
  cases hd : ServerRecord.decode P f.header f.body i.schedule.transcriptHash with
  | ok record t => exact bind_of_ok (onPart_of_ok hd)
  | error e t => exact bind_of_error (onPart_of_error hd)

theorem read_of_fetch_error {e : Stop} (h : RecordReader.fetch i.intake = .error e intake) :
    read P i = .error e { i with intake } :=
  bind_of_error (onPart_of_error h)

end Fetched

theorem read_eq_ok {P : Primitives cs} {i i' : Inbound cs} {start : Nat} {record : ServerRecord cs}
    (h : read P i = .ok (start, record) i') :
    ∃ f intake transcript, RecordReader.fetch i.intake = .ok f intake ∧ start = f.start ∧
      ServerRecord.Decodes P f.header f.body i.schedule.transcriptHash record transcript ∧
      i' = ⟨intake, { i.schedule with transcriptHash := transcript }⟩ := by
  simp only [read, bind_eq_ok] at h
  obtain ⟨f, _, hf, r, _, hr, h⟩ := h
  obtain ⟨intake, hfetch, rfl⟩ := onPart_eq_ok.mp hf
  obtain ⟨transcript, hdecode, rfl⟩ := onPart_eq_ok.mp hr
  cases h
  exact ⟨f, intake, transcript, hfetch, rfl, ServerRecord.decode_eq_ok hdecode, rfl⟩

end Inbound

end GatoPskTls
