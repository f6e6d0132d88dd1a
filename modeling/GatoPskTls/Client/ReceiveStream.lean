import GatoPskTls.Aead
import GatoPskTls.ReadBuffer
import GatoPskTls.RecordReaderStream
import GatoPskTls.WriteBufferSpec
import GatoPskTls.Client.Robustness

/-!
# The stream a client receives

A server seals records one after the other, and the transport delivers them in chunks of any
size. However the client reads, what it takes is the application data in order, up to what it
has not taken yet.
-/
namespace GatoPskTls.Client

open Stateful BigEndian Splice History ParseBuffer ReadBuffer

variable {cs : TlsCipherSuite}

/-- What a server puts into a record: application data or tickets. -/
inductive Content
  | data (plaintext : Bytes)
  | tickets (messages : Bytes)
  deriving DecidableEq

namespace Content

def contentType : Content → ContentType
  | data _ => .applicationData
  | tickets _ => .handshake

def bytes : Content → Bytes
  | data plaintext => plaintext
  | tickets messages => messages

/-- The application data. -/
def text : Content → Bytes
  | data plaintext => plaintext
  | tickets _ => []

theorem contentType_ne_zero (c : Content) : c.contentType.toU8 ≠ 0 := by
  cases c <;> exact nofun

/-- Tickets are `NewSessionTicket` messages and nothing else. -/
def WellFormed (cs : TlsCipherSuite) : Content → Prop
  | data _ => True
  | tickets messages => readable cs messages.length (.new messages) ∧
      ∀ t ∈ messageTypes cs messages.length (.new messages), t = .newSessionTicket

instance (c : Content) : Decidable (c.WellFormed cs) :=
  match c with
  | data _ => .isTrue trivial
  | tickets messages => inferInstanceAs (Decidable (readable cs messages.length (.new messages) ∧
      ∀ t ∈ messageTypes cs messages.length (.new messages), t = .newSessionTicket))

end Content

/-- Content with zero padding. -/
structure Padded where
  content : Content
  padding : Nat
  deriving DecidableEq

/-- The inner plaintext of a record. -/
def Padded.inner (r : Padded) : Bytes :=
  r.content.bytes ++ r.content.contentType.toU8 :: List.replicate r.padding 0

/-- The records in order, sealed with ascending counters; nothing when a record would be too long
for its header or the counter would wrap. -/
def sealAll (P : Primitives cs) : KeyScheduleState cs → List Padded → Option Bytes
  | _, [] => some []
  | s, r :: rs => do
      if CanCount s ∧ r.inner.length + cs.tagSize < 256 ^ 2 then
        let record ← sealedRecord P s r.inner
        let records ← sealAll P { s with counter := s.counter + 1 } rs
        return record ++ records
      else none

/-- The application data of some records. -/
def texts (rs : List Padded) : Bytes := (rs.map (·.content.text)).flatten

/-- What a read buffer held, and the slices its calls returned. -/
structure Served where
  data : Bytes
  slices : List (BufferCall × Bytes)
  deriving DecidableEq

namespace TlsConnection

/-- A read buffer over `data` is used and released. -/
def lend (data : Bytes) (calls : List BufferCall) (release : Release) : M cs Served := do
  let (slices, buffer) := callAll calls (.new data)
  modify fun c => { c with decrypted := c.decrypted.pop (buffer.released release) }
  return { data, slices }

def readBufferedWith (P : Primitives cs) (calls : List BufferCall) (release : Release) :
    M cs Served := do
  let data ← readBuffered P
  lend data calls release

/-- `read_buffered().map(|mut buf| buf.peek_all())`. -/
def fillBuf (P : Primitives cs) : M cs Served := readBufferedWith P [.peekAll] .drop

/-- `create_read_buffer().pop(amt)`. -/
def consume (amt : Nat) : M cs Served := do
  let data ← createReadBuffer
  lend data [.pop amt] .drop

end TlsConnection

inductive ReadCall
  | read (len : Nat)
  | readBuffered (calls : List BufferCall) (release : Release)
  | fillBuf
  | consume (amt : Nat)
  deriving DecidableEq

def ReadCall.release : ReadCall → Release
  | readBuffered _ release => release
  | _ => .drop

namespace TlsConnection

def runCall (P : Primitives cs) : ReadCall → M cs Served
  | .read len => do
      let bytes ← read P len
      return ⟨bytes, [(.popInto len, bytes)]⟩
  | .readBuffered calls release => readBufferedWith P calls release
  | .fillBuf => fillBuf P
  | .consume amt => consume amt

def readStep (P : Primitives cs) (c : TlsConnection cs) (call : ReadCall) :
    Except Stop Served × TlsConnection cs :=
  (outcome (runCall P call c), after (runCall P call c))

end TlsConnection

abbrev ReadEvent (cs : TlsCipherSuite) := Event (TlsConnection cs) ReadCall (Except Stop Served)

/-- The bytes handed out and consumed, or dropped with an unused read buffer. -/
def ReadEvent.consumed (e : ReadEvent cs) : Bytes :=
  match e.out with
  | .ok served => gone served.data served.slices e.call.release
  | .error _ => []

/-- All bytes consumed in a history, in order. -/
def consumed (h : List (ReadEvent cs)) : Bytes := inOrder ReadEvent.consumed h

variable {P : Primitives cs}

namespace TlsConnection

/-- The states in which the loop of `read_buffered` goes for a record. -/
def turns (P : Primitives cs) : Nat → TlsConnection cs → List (TlsConnection cs)
  | 0, _ => []
  | n+1, c =>
      if c.decrypted.isEmpty then
        c :: match readApplicationData P c with
          | .ok () c' => turns P n c'
          | .error _ _ => []
      else []

def loopTurns (P : Primitives cs) (c : TlsConnection cs) : List (TlsConnection cs) :=
  if c.opened then turns P (c.channel.intake.size + 1) c else []

/-- Those of a call. -/
def callTurns (P : Primitives cs) (c : TlsConnection cs) : ReadCall → List (TlsConnection cs)
  | .read len => if len = 0 then [] else loopTurns P c
  | .readBuffered _ _ | .fillBuf => loopTurns P c
  | .consume _ => []

end TlsConnection

/-- `Inv stream c` says what the reads from `c` on are to give. It survives a turn of the loop when
the record it goes for is `Sound`, and the bytes that are taken come off its front. -/
structure Feeds (P : Primitives cs) (Inv : Bytes → TlsConnection cs → Prop)
    (Sound : TlsConnection cs → Prop) (Fails : Bytes → Stop → TlsConnection cs → Prop) : Prop where
  window : ∀ {stream c}, Inv stream c → ∃ rest, c.window ++ rest = stream ∧ ∀ count,
    Inv (c.window.drop count ++ rest) { c with decrypted := c.decrypted.pop count }
  turn : ∀ {stream c}, Inv stream c → Sound c → c.decrypted.isEmpty →
    Ends (c.readApplicationData P) (fun _ => Inv stream) (Fails stream)
  closed : ∀ {stream c}, Inv stream c → ¬c.opened → Fails stream (.err .missingHandshake) c
  unread : ∀ {stream c e c'}, Inv stream c → c.createReadBuffer = .error e c' → Fails stream e c'

/-- A call takes from the front of the stream what is gone with its read buffer. -/
def Serves (Inv : Bytes → TlsConnection cs → Prop) (stream : Bytes) (release : Release)
    (served : Served) (c : TlsConnection cs) : Prop :=
  ∃ rest, gone served.data served.slices release ++ rest = stream ∧ Inv rest c ∧
    Follows stream served.slices

namespace Feeds

open TlsConnection

variable {Inv : Bytes → TlsConnection cs → Prop} {Sound : TlsConnection cs → Prop}
  {Fails : Bytes → Stop → TlsConnection cs → Prop} {c : TlsConnection cs} {stream : Bytes}

theorem fillWindow (h : Feeds P Inv Sound Fails) (hc : Inv stream c) {n : Nat}
    (hsound : ∀ c' ∈ turns P n c, Sound c') :
    Ends (TlsConnection.fillWindow P n c) (fun _ => Inv stream) (Fails stream) := by
  induction n generalizing c with
  | zero => exact hc
  | succ n ih =>
      simp only [TlsConnection.fillWindow, get_bind_apply]
      rw [turns] at hsound
      split
      next hempty =>
        rw [if_pos hempty] at hsound
        obtain ⟨hfirst, hlater⟩ := List.forall_mem_cons.mp hsound
        have hturn := h.turn hc hfirst hempty
        refine .bind ?_
        cases hread : c.readApplicationData P with
        | ok u c₁ =>
            rw [hread] at hlater
            exact ih (hturn.ok hread) hlater
        | error e c₁ => exact hturn.error hread
      next => exact hc

theorem readBuffered (h : Feeds P Inv Sound Fails) (hc : Inv stream c)
    (hsound : ∀ c' ∈ loopTurns P c, Sound c') :
    Ends (TlsConnection.readBuffered P c) (fun data c' => data = c'.window ∧ Inv stream c')
      (Fails stream) := by
  simp only [TlsConnection.readBuffered, get_bind_apply]
  rw [loopTurns] at hsound
  split
  next hopen =>
    rw [if_pos hopen] at hsound
    refine .bind ((h.fillWindow hc hsound).mono ?_ fun _ _ h => h)
    intro _ c' hc'
    cases hbuffer : createReadBuffer c' with
    | ok data c'' =>
        obtain ⟨rfl, rfl⟩ := createReadBuffer_eq_ok hbuffer
        exact ⟨rfl, hc'⟩
    | error e c'' => exact h.unread hc' hbuffer
  next hclosed => exact h.closed hc hclosed

theorem lend (h : Feeds P Inv Sound Fails) (hc : Inv stream c) (calls : List BufferCall)
    (release : Release) :
    Ends (TlsConnection.lend c.window calls release c) (Serves Inv stream release)
      (Fails stream) := by
  obtain ⟨rest, rfl, hpop⟩ := h.window hc
  refine ⟨_, ?_, hpop _, callAll_follows calls (.new c.window) rest⟩
  rw [← List.append_assoc, gone_eq]
  exact congrArg (· ++ rest) (List.take_append_drop _ _)

theorem readBufferedWith (h : Feeds P Inv Sound Fails) (hc : Inv stream c)
    (hsound : ∀ c' ∈ loopTurns P c, Sound c') (calls : List BufferCall) (release : Release) :
    Ends (TlsConnection.readBufferedWith P calls release c) (Serves Inv stream release)
      (Fails stream) := by
  refine .bind ((h.readBuffered hc hsound).mono ?_ fun _ _ h => h)
  rintro _ c' ⟨rfl, hc'⟩
  exact h.lend hc' calls release

theorem read (h : Feeds P Inv Sound Fails) (hc : Inv stream c) (len : Nat)
    (hsound : ∀ c' ∈ callTurns P c (.read len), Sound c') :
    Ends (runCall P (.read len) c) (Serves Inv stream .drop) (Fails stream) := by
  simp only [runCall, TlsConnection.read]
  rw [callTurns] at hsound
  split
  next hzero => exact ⟨stream, by simp [gone, popped], hc, List.nil_prefix, trivial⟩
  next hlen =>
    rw [if_neg hlen] at hsound
    refine .bind (.bind ((h.readBuffered hc hsound).mono ?_ fun _ _ h => h))
    rintro _ c' ⟨rfl, hc'⟩
    simp only [TlsConnection.pop]
    cases hbuffer : createReadBuffer c' with
    | error e c'' =>
        rw [bind_of_error hbuffer]
        exact h.unread hc' hbuffer
    | ok data c'' =>
        obtain ⟨hdata, rfl⟩ := createReadBuffer_eq_ok hbuffer
        obtain ⟨rest, rfl, hpop⟩ := h.window hc'
        rw [bind_of_ok hbuffer, hdata]
        refine ⟨c''.window.drop len ++ rest, ?_, hpop len, ?_, trivial⟩
        · simp [gone, popped, BufferCall.consumes, ← List.append_assoc]
        · exact (List.take_prefix _ _).trans (List.prefix_append _ _)

/-- Every call takes from the front of the stream, or fails. -/
theorem runCall (h : Feeds P Inv Sound Fails) (hc : Inv stream c) (call : ReadCall)
    (hsound : ∀ c' ∈ callTurns P c call, Sound c') :
    Ends (TlsConnection.runCall P call c) (Serves Inv stream call.release) (Fails stream) := by
  cases call with
  | read len => exact h.read hc len hsound
  | readBuffered calls release => exact h.readBufferedWith hc hsound calls release
  | fillBuf => exact h.readBufferedWith hc hsound _ _
  | consume amt =>
      simp only [TlsConnection.runCall, consume]
      cases hbuffer : createReadBuffer c with
      | ok data c' =>
          obtain ⟨rfl, rfl⟩ := createReadBuffer_eq_ok hbuffer
          rw [bind_of_ok hbuffer]
          exact h.lend hc _ _
      | error e c' =>
          rw [bind_of_error hbuffer]
          exact h.unread hc hbuffer

end Feeds

theorem sealAll_cons {s : KeyScheduleState cs} {r : Padded} {rs : List Padded} {bytes : Bytes}
    (h : sealAll P s (r :: rs) = some bytes) :
    CanCount s ∧ r.inner.length + cs.tagSize < 256 ^ 2 ∧ ∃ ciphertext records,
      P.aeadSeal s.key (KeyScheduleState.nonce s.counter s.iv)
        (additionalData (r.inner.length + cs.tagSize)) r.inner = some ciphertext ∧
      sealAll P { s with counter := s.counter + 1 } rs = some records ∧
      bytes = additionalData (r.inner.length + cs.tagSize) ++ (ciphertext ++ records) := by
  simp only [sealAll] at h
  split at h
  next hcan =>
    simp only [Option.bind_eq_bind, Option.bind_eq_some_iff, sealedRecord, Option.map_eq_some_iff,
      Option.pure_def, Option.some.injEq] at h
    obtain ⟨_, ⟨ciphertext, hseal, rfl⟩, records, hrecords, rfl⟩ := h
    exact ⟨hcan.1, hcan.2, ciphertext, records, hseal, hrecords, List.append_assoc _ _ _⟩
  · cases h

section Record

variable {f : RecordReader.Fetched} {r r₁ : Reading cs Handling}

theorem received_of_open {contentType : ContentType} {appData : CryptoBuffer}
    (hlen : f.body.length = f.header.contentLength) (hc : f.header.contentType = .applicationData)
    (hopen : openRecord P r.schedule.state ⟨f.header, .wrapWithPos f.body f.body.length⟩ =
      .ok (contentType, appData))
    (hdeliver : deliver P (handler f.start) f.header appData contentType r = .ok () r₁)
    (hstate : r₁.schedule.state = r.schedule.state) (hcount : CanCount r.schedule.state) :
    received P (handler f.start) f r = .ok () { r₁ with
      schedule.state := { r.schedule.state with counter := r.schedule.state.counter + 1 } } := by
  simp only [received, ServerRecord.decode_eq hlen, hc, decryptRecord, get_bind_apply, hopen,
    fromResult_ok_bind]
  rw [bind_of_ok hdeliver]
  refine onPart_of_ok ?_
  rw [hstate, incrementCounter_eq, if_pos hcount]

theorem deliver_data {start : Nat} {header : RecordHeader} {appData : CryptoBuffer} {h : Handling}
    (hdata : Handling.handleData start appData r.captured = .ok () h) :
    deliver P (handler start) header appData .applicationData r =
      .ok () { r with captured := h } := by
  simp only [deliver, handler, Reading.onCaptured, Handling.handle]
  exact onPart_of_ok hdata

theorem deliver_tickets {appData : CryptoBuffer}
    (hcontent : (Content.tickets appData.asSlice).WellFormed cs) :
    ∃ r₁, deliver P (handler f.start) f.header appData .handshake r = .ok () r₁ ∧
      r₁.schedule.state = r.schedule.state ∧ r₁.captured = r.captured := by
  have hends := @deliverMessages_ends cs P f.start r appData.asSlice.length (.new appData.asSlice)
  have hnone : ¬∃ t ∈ messageTypes cs appData.asSlice.length (.new appData.asSlice),
      t ≠ .newSessionTicket := by
    rintro ⟨t, ht, hne⟩
    exact hne (hcontent.2 t ht)
  cases hrun : deliverMessages P (handler f.start) appData.asSlice.length (.new appData.asSlice) r with
  | ok u r₁ =>
      obtain ⟨-, -, hstate, hcaptured⟩ := hends.ok hrun
      exact ⟨r₁, hrun, hstate, hcaptured⟩
  | error e r₁ =>
      obtain ⟨hpanic, hwhole, -⟩ := hends.error hrun
      exact absurd (hpanic.mp (hwhole hcontent.1)) hnone

end Record

/-- A sealed record fills the window with its application data, or leaves it alone. -/
theorem received_padded (hP : P.AeadCorrect) {x : Padded} (hx : x.content.WellFormed cs)
    {r : Reading cs Handling} {start n : Nat} {ciphertext : Bytes}
    (hshort : x.inner.length + cs.tagSize < 256 ^ 2) (hcount : CanCount r.schedule.state)
    (hseal : P.aeadSeal r.schedule.state.key
      (KeyScheduleState.nonce r.schedule.state.counter r.schedule.state.iv)
      (additionalData (x.inner.length + cs.tagSize)) x.inner = some ciphertext)
    (hr : r.captured.Within n) (hbody : start + ciphertext.length ≤ n) :
    ∃ r', received P (handler start)
        ⟨protectedHeader (x.inner.length + cs.tagSize), start, ciphertext⟩ r = .ok () r' ∧
      r'.schedule.state = { r.schedule.state with counter := r.schedule.state.counter + 1 } ∧
      r'.captured.Within n ∧ r'.captured.isOpen = r.captured.isOpen ∧
      (r.captured.window = [] → r'.captured.window = x.content.text) := by
  have hlen : ciphertext.length = x.inner.length + cs.tagSize := P.aeadSeal_length hseal
  have haead : P.aeadOpen r.schedule.state.key
      (KeyScheduleState.nonce r.schedule.state.counter r.schedule.state.iv)
      (protectedHeader (x.inner.length + cs.tagSize)).header.val ciphertext = some x.inner :=
    hP.opens hseal
  have hopen := openRecord_of_padded haead x.content.contentType_ne_zero
    (show x.inner = x.content.bytes ++ _ from rfl)
  rw [ContentType.of_toU8] at hopen
  have hslice : (⟨splice ciphertext 0 x.inner, 0, x.content.bytes.length⟩ : CryptoBuffer).asSlice =
      x.content.bytes := by
    rw [opened_content haead (by simp [Padded.inner]), Padded.inner, List.take_left]
  have hbuf := (opened_buffer haead).2.2
  have hfilled : x.content.bytes.length < ciphertext.length := by
    simp only [Padded.inner, List.length_append, List.length_cons] at hlen
    omega
  have hheader : ciphertext.length =
      (protectedHeader (x.inner.length + cs.tagSize)).contentLength := by
    rw [protectedHeader_contentLength hshort, hlen]
  obtain ⟨content, padding⟩ := x
  cases content with
  | data plaintext =>
      have hdata := @handleData_of_within start r.captured n _ hr rfl (hbuf ▸ hbody) (by
        rw [hslice, hbuf]
        exact hfilled)
      refine ⟨_, received_of_open hheader rfl hopen (deliver_data hdata) rfl hcount, rfl, ?_, rfl,
        fun _ => ?_⟩
      · exact hr.showing (hbuf ▸ hbody) (by rw [hslice, hbuf]; exact hfilled)
      · exact (Handling.showing_window rfl (by rw [hr.1]; omega)).trans hslice
  | tickets messages =>
      obtain ⟨r₁, hdeliver, hstate, hcaptured⟩ := @deliver_tickets cs P
        ⟨protectedHeader _, start, ciphertext⟩ r _ (by rw [hslice]; exact hx)
      refine ⟨_, received_of_open hheader rfl hopen hdeliver hstate hcount, rfl, ?_, ?_, fun hempty => ?_⟩
      · exact hcaptured ▸ hr
      · exact congrArg Handling.isOpen hcaptured
      · exact (congrArg Handling.window hcaptured).trans hempty

/-- An open connection between two records, to which these records are still to come. -/
structure Arriving (P : Primitives cs) (c : TlsConnection cs) (rs : List Padded) : Prop where
  opened : c.opened
  ready : c.channel.intake.reader.Ready
  window : c.decrypted.offset + c.decrypted.len ≤ c.channel.intake.reader.buf.length
  stream : ∃ bytes, sealAll P c.channel.schedule.serverState.state rs = some bytes ∧
    c.channel.intake.transport.Delivers bytes
  fits : ∀ r ∈ rs, r.content.WellFormed cs ∧
    r.inner.length + cs.tagSize ≤ c.channel.intake.reader.buf.length

namespace Arriving

open TlsConnection

variable {c : TlsConnection cs} {r : Padded} {rs : List Padded}

theorem valid (h : Arriving P c rs) : c.Valid where
  reader := by
    rw [RecordReader.Valid, h.ready.pending]
    exact h.ready.decoded
  window := h.window

theorem isEmpty_iff (h : Arriving P c rs) : c.decrypted.isEmpty ↔ c.window = [] := by
  have hle := c.decrypted.consumed_le
  have hwindow := h.window
  rw [← List.length_eq_zero_iff, TlsConnection.window, DecryptedBufferInfo.window, List.length_take,
    List.length_drop, DecryptedBufferInfo.isEmpty, beq_iff_eq]
  omega

/-- With an empty window, the next record is taken. -/
theorem turn (hP : P.AeadCorrect) (h : Arriving P c (r :: rs)) (hempty : c.decrypted.isEmpty) :
    ∃ c', readApplicationData P c = .ok () c' ∧ Arriving P c' rs ∧ c'.window = r.content.text := by
  obtain ⟨bytes, hsealed, hdelivers⟩ := h.stream
  obtain ⟨hcount, hshort, ciphertext, records, hseal, hrecords, rfl⟩ := sealAll_cons hsealed
  obtain ⟨hwell, hfits⟩ := h.fits r List.mem_cons_self
  have hlen : ciphertext.length = r.inner.length + cs.tagSize := P.aeadSeal_length hseal
  obtain ⟨start, i, hfetch, hrest, hready, hbuf⟩ := @RecordReader.fetch_delivers c.channel.intake
    (protectedHeader (r.inner.length + cs.tagSize)) ciphertext records h.ready
    (by rw [protectedHeader_contentLength hshort, hlen]) (by omega) hdelivers
  have hwithin : (handling { c with channel.intake := i }).captured.Within i.reader.buf.length :=
    ⟨rfl, hbuf ▸ h.window⟩
  have hwindow : (handling { c with channel.intake := i }).captured.window = [] :=
    DecryptedBufferInfo.window_of_isEmpty hempty _
  have hbody := (RecordReader.fetch_eq_ok hfetch).2.1
  obtain ⟨r', hreceived, hstate, ⟨hsource, hinside⟩, hopen, hshown⟩ :=
    received_padded (r := handling { c with channel.intake := i }) hP hwell hshort hcount hseal
      hwithin hbody
  refine ⟨_, (readApplicationData_of_fetch hfetch).trans (onPart_of_ok hreceived), ⟨?_, ?_, ?_, ?_, ?_⟩,
    hshown hwindow⟩
  · exact hopen.trans h.opened
  · exact ⟨hready.pending, show _ ≤ r'.captured.source.length by rw [hsource]; exact hready.decoded⟩
  · exact show _ ≤ r'.captured.source.length by rw [hsource]; exact hinside
  · exact ⟨records, (congrArg (sealAll P · rs) hstate).trans hrecords, hrest⟩
  · intro x hx
    refine ⟨(h.fits x (List.mem_cons_of_mem r hx)).1, ?_⟩
    exact show _ ≤ r'.captured.source.length by
      rw [hsource, hbuf]
      exact (h.fits x (List.mem_cons_of_mem r hx)).2

/-- Behind the last record there is nothing to take. -/
theorem turn_closed (h : Arriving P c []) : readApplicationData P c = .error (.err .ioError) c := by
  obtain ⟨bytes, hsealed, hdelivers⟩ := h.stream
  cases hsealed
  exact readApplicationData_of_fetch_error (RecordReader.fetch_closed hdelivers)

/-- Taking bytes from the window leaves the records to come. -/
theorem pop (h : Arriving P c rs) (count : Nat) :
    Arriving P { c with decrypted := c.decrypted.pop count } rs :=
  ⟨h.opened, h.ready, h.window, h.stream, h.fits⟩

end Arriving

/-- The bytes in the window and in the records to come. -/
def Remains (P : Primitives cs) (stream : Bytes) (c : TlsConnection cs) : Prop :=
  ∃ rs, Arriving P c rs ∧ c.window ++ texts rs = stream

/-- A call fails only behind the last byte. -/
def Exhausted (P : Primitives cs) (stream : Bytes) (e : Stop) (c : TlsConnection cs) : Prop :=
  e = .err .ioError ∧ stream = [] ∧ Remains P stream c

/-- The records that arrive are taken one by one. -/
theorem remains_feeds (hP : P.AeadCorrect) :
    Feeds P (Remains P) (fun _ => True) (Exhausted P) where
  window := by
    rintro stream c ⟨rs, hc, rfl⟩
    refine ⟨texts rs, rfl, fun count => ⟨rs, hc.pop count, ?_⟩⟩
    exact congrArg (· ++ texts rs) (DecryptedBufferInfo.window_pop _ _ _)
  turn := by
    rintro stream c ⟨rs, hc, hstream⟩ - hempty
    have hwindow := hc.isEmpty_iff.mp hempty
    cases rs with
    | nil =>
        rw [hc.turn_closed]
        refine ⟨rfl, ?_, [], hc, hstream⟩
        rw [← hstream, hwindow]
        rfl
    | cons r rs =>
        obtain ⟨c₁, hturn, hc₁, hshown⟩ := hc.turn hP hempty
        rw [hturn]
        refine ⟨rs, hc₁, ?_⟩
        rw [hshown, ← hstream, hwindow]
        simp [texts]
  closed := fun ⟨_, hc, _⟩ hclosed => absurd hc.opened hclosed
  unread := by
    rintro stream c e c' ⟨rs, hc, -⟩ hbuffer
    rw [TlsConnection.createReadBuffer_of_valid hc.valid] at hbuffer
    cases hbuffer

/-- What a call returns is the front of what remains; it fails only when nothing remains. -/
def Answers (remaining : Bytes) : Except Stop Served → Prop
  | .ok served => Follows remaining served.slices
  | .error e => e = .err .ioError ∧ remaining = []

/-- What was consumed and what remains are the application data. -/
theorem consumed_remains (hP : P.AeadCorrect) {c₀ c : TlsConnection cs} {stream : Bytes}
    {h : List (ReadEvent cs)} (hstart : Remains P stream c₀)
    (hr : Reaches (TlsConnection.readStep P) c₀ h c) :
    ∃ rest, consumed h ++ rest = stream ∧ Remains P rest c := by
  refine hr.drains (F := fun _ => True) ?_ hstart fun _ _ => trivial
  intro rest c call hc _
  have hends := (remains_feeds hP).runCall hc call fun _ _ => trivial
  simp only [TlsConnection.readStep, ReadEvent.consumed]
  cases hcall : TlsConnection.runCall P call c with
  | ok served c' =>
      obtain ⟨rest', hgone, hc', -⟩ := hends.ok hcall
      exact ⟨rest', hgone, hc'⟩
  | error e c' => exact ⟨rest, rfl, (hends.error hcall).2.2⟩

/-- What the calls of a history have consumed is the front of the application data, in order and
without a gap, and what each call returned is what stands behind the bytes consumed before it. -/
theorem receive_stream (hP : P.AeadCorrect) {c₀ c : TlsConnection cs} {rs : List Padded}
    {h : List (ReadEvent cs)} (hstart : Arriving P c₀ rs) (hempty : c₀.decrypted.isEmpty)
    (hr : Reaches (TlsConnection.readStep P) c₀ h c) :
    consumed h <+: texts rs ∧ ∀ newer e older, h = newer ++ e :: older →
      Answers ((texts rs).drop (consumed older).length) e.out := by
  have hremains : Remains P (texts rs) c₀ :=
    ⟨rs, hstart, by rw [hstart.isEmpty_iff.mp hempty]; rfl⟩
  obtain ⟨rest, hrest, -⟩ := consumed_remains hP hremains hr
  refine ⟨⟨rest, hrest⟩, ?_⟩
  rintro newer e older rfl
  obtain ⟨holder, hout, -⟩ := hr.split
  obtain ⟨rest, hrest, hc⟩ := consumed_remains hP hremains holder
  rw [← hrest, List.drop_left, hout]
  have hends := (remains_feeds hP).runCall hc e.call fun _ _ => trivial
  simp only [TlsConnection.readStep]
  cases hcall : TlsConnection.runCall P e.call e.pre with
  | ok served c' =>
      obtain ⟨_, -, -, hfollows⟩ := hends.ok hcall
      exact hfollows
  | error e' c' =>
      obtain ⟨herror, hnil, -⟩ := hends.error hcall
      exact ⟨herror, hnil⟩

namespace Peer

def ticket : Bytes := [4, 0, 0, 14, 0, 0, 0, 1, 0, 0, 0, 2, 0, 0, 1, 9, 0, 0]

/-- Two greetings with padding, a ticket between them. -/
def letters : List Padded := [⟨.data [104, 105], 2⟩, ⟨.tickets ticket, 1⟩, ⟨.data [33, 33, 33], 0⟩]

def posted : Bytes := (sealAll suite (connect []).2.readState letters).getD []

/-- The connection of a client to which the letters come in three chunks. -/
def listener : TlsConnection Peer.cs :=
  { connection [] with
    channel.intake.transport :=
      [.chunk (posted.take 3), .chunk ((posted.drop 3).take 30), .chunk (posted.drop 33)] }

theorem listener_sealed :
    sealAll suite listener.channel.schedule.serverState.state letters = some posted ∧
      posted.take 3 ≠ [] ∧ (posted.drop 3).take 30 ≠ [] ∧ posted.drop 33 ≠ [] := by
  decide +kernel

theorem listener_delivers : listener.channel.intake.transport.Delivers posted := by
  obtain ⟨-, hfirst, hsecond, hthird⟩ := listener_sealed
  have hcut : posted.take 3 ++ ((posted.drop 3).take 30 ++ (posted.drop 33 ++ [])) = posted := by
    rw [List.append_nil, show posted.drop 33 = (posted.drop 3).drop 30 by rw [List.drop_drop],
      List.take_append_drop, List.take_append_drop]
  rw [← hcut]
  exact .chunk hfirst (.chunk hsecond (.chunk hthird .closed))

theorem listener_ready : listener.opened ∧ listener.decrypted.isEmpty ∧
    listener.channel.intake.reader.pending = 0 ∧
    listener.channel.intake.reader.decoded ≤ listener.channel.intake.reader.buf.length ∧
    listener.decrypted.offset + listener.decrypted.len ≤ listener.channel.intake.reader.buf.length ∧
    ∀ r ∈ letters, r.content.WellFormed Peer.cs ∧
      r.inner.length + Peer.cs.tagSize ≤ listener.channel.intake.reader.buf.length := by
  decide +kernel

theorem listener_arriving : Arriving suite listener letters where
  opened := listener_ready.1
  ready := ⟨listener_ready.2.2.1, listener_ready.2.2.2.1⟩
  window := listener_ready.2.2.2.2.1
  stream := ⟨posted, listener_sealed.1, listener_delivers⟩
  fits := listener_ready.2.2.2.2.2

/-- Bytes are looked at, popped, put back, dropped and read across records. -/
def readings : List ReadCall :=
  [.fillBuf, .consume 1, .readBuffered [.pop 1, .peekAll] .revert, .read 5,
    .readBuffered [.peek 1, .pop 1] .drop, .readBuffered [] .drop, .read 1]

def reading : List (ReadEvent Peer.cs) × TlsConnection Peer.cs :=
  runAll (TlsConnection.readStep suite) ([], listener) readings

theorem reading_reaches : Reaches (TlsConnection.readStep suite) listener reading.1 reading.2 := by
  unfold reading
  exact runAll_reaches .nil _

end Peer

theorem letters_read : consumed Peer.reading.1 = [104, 105, 33, 33, 33] ∧
    consumed Peer.reading.1 <+: texts Peer.letters ∧
    ∀ newer e older, Peer.reading.1 = newer ++ e :: older →
      Answers ((texts Peer.letters).drop (consumed older).length) e.out :=
  ⟨by decide +kernel, receive_stream (Primitives.checksumming_aeadCorrect Peer.cs)
    Peer.listener_arriving Peer.listener_ready.2.1 Peer.reading_reaches⟩

end GatoPskTls.Client
