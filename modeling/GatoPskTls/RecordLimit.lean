import GatoPskTls.SentRecord
import GatoPskTls.Server.SessionSpec

/-!
# How long a record can get

The slice behind a write buffer has the length it was made with: no call changes it, whichever
way the call ends. So the longest record a client can be made to send is as long as its buffer.
-/
namespace GatoPskTls

open Stateful BigEndian Splice

variable {cs : TlsCipherSuite} {ε : Type} {α : Type}

namespace CryptoBuffer

/-- The slice behind the window has kept its length. -/
abbrev SameSize : CryptoBuffer → CryptoBuffer → Prop := Same (·.buf.length)

abbrev KeepsSize (m : EStateM ε CryptoBuffer α) : Prop := Keeps SameSize m

theorem keepsSize_extendFromSlice (w : Bytes) : KeepsSize (extendFromSlice w) := by
  intro b
  rw [extendFromSlice]
  split
  · exact Eq.refl b.buf.length
  rename_i hroom
  simp only [space, capacity] at hroom
  cases w with
  | nil => exact congrArg List.length (splice_nil _ _)
  | cons x w =>
      refine splice_length ?_
      simp only [List.length_cons] at hroom ⊢
      omega

theorem keepsSize_push (byte : UInt8) : KeepsSize (push byte) := by
  intro b
  rw [push]
  split
  · exact List.length_set
  · exact Eq.refl b.buf.length

theorem keepsSize_setAt (idx : Nat) (val : UInt8) : KeepsSize (setAt idx val) := by
  intro b
  rw [setAt]
  split
  · exact List.length_set
  · exact Eq.refl b.buf.length

theorem keepsSize_setBytes (idx : Nat) (vals : Bytes) : KeepsSize (setBytes idx vals) := by
  induction vals generalizing idx with
  | nil => exact .pure _
  | cons val vals ih => exact (keepsSize_setAt idx val).bind fun _ => ih (idx + 1)

theorem keepsSize_withLength {w : Nat} {placeholder op : M Unit} (hp : KeepsSize placeholder)
    (hop : KeepsSize op) : KeepsSize (withLength w placeholder op) :=
  Keeps.get.bind fun _ => hp.bind fun _ => Keeps.get.bind fun _ => hop.bind fun _ =>
    Keeps.get.bind fun _ => keepsSize_setBytes _ _

theorem keepsSize_withU8Length {op : M Unit} (hop : KeepsSize op) : KeepsSize (withU8Length op) :=
  keepsSize_withLength (keepsSize_push 0) hop

theorem keepsSize_withU16Length {op : M Unit} (hop : KeepsSize op) : KeepsSize (withU16Length op) :=
  keepsSize_withLength (keepsSize_extendFromSlice _) hop

theorem keepsSize_withU24Length {op : M Unit} (hop : KeepsSize op) : KeepsSize (withU24Length op) :=
  keepsSize_withLength (keepsSize_extendFromSlice _) hop

theorem keepsSize_offsetTo (offset : Nat) : KeepsSize (offsetTo offset) := by
  intro b
  simp only [offsetTo, get_bind_apply]
  split <;> exact Eq.refl b.buf.length

end CryptoBuffer

open CryptoBuffer

theorem keepsSize_pushU16 (n : Nat) : KeepsSize (orEncodeError (pushU16 n)) :=
  (keepsSize_extendFromSlice _).mapError

theorem keepsSize_pushByte (byte : UInt8) : KeepsSize (orEncodeError (push byte)) :=
  (keepsSize_push byte).mapError

theorem keepsSize_list16 {enc : α → CryptoBuffer.M Unit} (xs : List α)
    (h : ∀ x, KeepsSize (enc x)) : KeepsSize (withU16Length (xs.forM enc)) :=
  keepsSize_withU16Length (.forM xs fun x _ => h x)

theorem keepsSize_list8 {enc : α → CryptoBuffer.M Unit} (xs : List α)
    (h : ∀ x, KeepsSize (enc x)) : KeepsSize (withU8Length (xs.forM enc)) :=
  keepsSize_withU8Length (.forM xs fun x _ => h x)

theorem keepsSize_opaque16 (w : Bytes) :
    KeepsSize (orEncodeError (withU16Length (extendFromSlice w))) :=
  (keepsSize_withU16Length (keepsSize_extendFromSlice w)).mapError

theorem PreSharedKeyClientHello.keepsSize_encode (psk : PreSharedKeyClientHello) :
    KeepsSize psk.encode := by
  have hidentity : ∀ identity, KeepsSize (encodeIdentity identity) := fun identity =>
    (keepsSize_opaque16 identity).bind fun _ => (keepsSize_extendFromSlice _).mapError
  exact (keepsSize_list16 _ hidentity).mapError.bind fun _ => (keepsSize_pushU16 _).bind fun _ =>
    .forM _ fun _ _ => keepsSize_pushByte 0

theorem ClientHelloExtension.keepsSize_encode (ext : ClientHelloExtension) :
    KeepsSize ext.encode := by
  refine (keepsSize_pushU16 _).bind fun _ => keepsSize_withU16Length ?_
  cases ext with
  | serverName data =>
      exact keepsSize_list16 data.names fun name => (keepsSize_pushByte 0).bind fun _ => keepsSize_opaque16 _
  | supportedVersions data => exact keepsSize_list8 data.versions fun v => keepsSize_pushU16 v.code
  | signatureAlgorithms data => exact keepsSize_list16 _ fun a => keepsSize_pushU16 a.asU16
  | supportedGroups data =>
      exact keepsSize_list16 data.supportedGroups fun g => keepsSize_pushU16 g.asU16
  | keyShare data =>
      exact keepsSize_list16 data.clientShares fun e => (keepsSize_pushU16 _).bind fun _ => keepsSize_opaque16 _
  | preSharedKey data => exact data.keepsSize_encode
  | pskKeyExchangeModes data => exact keepsSize_list8 data.modes fun m => keepsSize_pushByte m.toU8
  | signatureAlgorithmsCert data => exact keepsSize_list16 _ fun a => keepsSize_pushU16 a.asU16
  | maxFragmentLength data => exact keepsSize_pushByte data.toU8
  | applicationLayerProtocolNegotiation data =>
      exact keepsSize_list16 data.protocols fun protocol =>
        (keepsSize_pushByte _).bind fun _ => keepsSize_extendFromSlice protocol
  | _ data => exact keepsSize_extendFromSlice _

theorem ClientHello.keepsSize_encodeHandshake (hello : ClientHello cs) :
    KeepsSize hello.encodeHandshake := by
  have hsome : ∀ ext, KeepsSize (encodeIfSome ext) := by
    rintro (_ | ext)
    · exact .pure _
    · exact ext.keepsSize_encode
  have hextensions : KeepsSize hello.encodeExtensions :=
    (ClientHelloExtension.keepsSize_encode _).bind fun _ =>
    (ClientHelloExtension.keepsSize_encode _).bind fun _ => (hsome _).bind fun _ =>
    (ClientHelloExtension.keepsSize_encode _).bind fun _ =>
    (ClientHelloExtension.keepsSize_encode _).bind fun _ =>
    (ClientHelloExtension.keepsSize_encode _).bind fun _ => (hsome _).bind fun _ =>
    (hsome _).bind fun _ => hsome _
  have hencode : KeepsSize hello.encode :=
    (keepsSize_pushU16 _).bind fun _ => (keepsSize_extendFromSlice _).mapError.bind fun _ =>
    (keepsSize_pushByte _).bind fun _ => (keepsSize_pushU16 _).bind fun _ =>
    (keepsSize_pushU16 _).bind fun _ => (keepsSize_pushByte _).bind fun _ =>
    (keepsSize_pushByte _).bind fun _ => keepsSize_withU16Length hextensions
  exact (keepsSize_pushByte _).bind fun _ => keepsSize_withU24Length hencode

theorem ClientHandshake.keepsSize_encode (message : ClientHandshake cs) :
    KeepsSize message.encode := by
  refine (keepsSize_pushByte _).bind fun _ => keepsSize_withU24Length ?_
  cases message with
  | clientCert certificate =>
      exact (keepsSize_withU8Length (keepsSize_extendFromSlice _)).bind fun _ =>
        keepsSize_withU24Length (.forM _ fun cert _ =>
          (keepsSize_withU24Length (keepsSize_extendFromSlice cert)).bind fun _ =>
            keepsSize_extendFromSlice _)
  | clientCertVerify verify =>
      exact (keepsSize_extendFromSlice _).bind fun _ =>
        keepsSize_withU16Length (keepsSize_extendFromSlice _)
  | finished f => exact (keepsSize_extendFromSlice _).mapError

theorem SentRecord.keepsSize_encodePayload (record : SentRecord cs) :
    KeepsSize record.encodePayload := by
  rcases record with ⟨hello, encrypted⟩ | ⟨message, encrypted⟩ | ⟨a, encrypted⟩
  · exact hello.keepsSize_encodeHandshake.mapError
  · refine message.keepsSize_encode.mapError.bind fun _ => ?_
    split
    · exact .throw _
    · exact .pure _
  · exact ((keepsSize_pushByte _).bind fun _ => keepsSize_pushByte _).mapError

theorem ClientHello.keepsSize_encodeBinders (P : Primitives cs) (ks : WriteKeySchedule cs)
    (transcript : Bytes) (ids : List Bytes) : KeepsSize (encodeBinders P ks transcript ids) :=
  .forM _ fun _ _ => (Keeps.fromResult _).bind fun _ =>
    (keepsSize_pushByte _).bind fun _ => (keepsSize_extendFromSlice _).mapError

abbrev Finalizing.SameLength : Finalizing → Finalizing → Prop := Same (·.encBuf.length)

/-- Binders are written over the end of the message. -/
theorem SentRecord.finishRecord_keeps_length (record : SentRecord cs) (P : Primitives cs)
    (ks : WriteKeySchedule cs) : Keeps Finalizing.SameLength (record.finishRecord P ks) := by
  have hmodify : ∀ data : Finalizing → Bytes, Keeps Finalizing.SameLength
      (modify fun f => f.updateTranscript (data f) : EStateM Stop Finalizing PUnit) :=
    fun data => Keeps.modify fun f => Eq.refl f.encBuf.length
  have hfinalize : ∀ hello : ClientHello cs, Keeps Finalizing.SameLength (hello.finalize P ks) := by
    intro hello
    rw [ClientHello.finalize]
    split
    · refine Keeps.get.bind fun f => (Keeps.fromResult _).bind fun pos =>
        (Keeps.fromResult _).bind fun truncated => (hmodify fun _ => _).bind fun _ =>
        Keeps.get.bind fun f => Keeps.bind ?_ fun _ => hmodify _
      refine Keeps.onPart (ClientHello.keepsSize_encodeBinders P ks _ _).mapError fun f b hb => ?_
      simp only [Same, CryptoBuffer.wrap, List.length_drop] at hb
      simp only [Same, List.length_append, List.length_take, hb]
      omega
    · exact hmodify _
  rcases record with ⟨hello, _ | _⟩ | ⟨message, encrypted⟩ | ⟨a, encrypted⟩
  · exact hfinalize hello
  · exact hmodify _
  · exact hmodify _
  · exact .pure _

namespace WriteBuffer

abbrev SameSize : WriteBuffer → WriteBuffer → Prop := Same (·.buffer.length)

abbrev KeepsSize (m : WriteBuffer.M α) : Prop := Keeps SameSize m

theorem keepsSize_withBuffer {op : CryptoBuffer.Op} (h : CryptoBuffer.KeepsSize op) :
    KeepsSize (withBuffer op) := by
  intro w
  cases hop : op w.crypto with
  | ok u b =>
      rw [withBuffer_of_ok hop]
      exact h.ok hop
  | error e b =>
      rw [withBuffer_of_error hop]
      exact h.error hop

theorem keepsSize_startRecord (header : ClientRecordHeader) : KeepsSize (startRecord header) := by
  have hencode : CryptoBuffer.KeepsSize (do
      mapError Stop.err header.encode
      mapError Stop.err (CryptoBuffer.pushU16 0)
      CryptoBuffer.offsetTo 0) :=
    ((keepsSize_pushByte _).bind fun _ => (keepsSize_extendFromSlice _).mapError).mapError.bind
      fun _ => (keepsSize_extendFromSlice _).mapError.bind fun _ => keepsSize_offsetTo 0
  intro w
  simp only [startRecord, get_bind_apply]
  split
  · exact Eq.refl w.buffer.length
  · exact keepsSize_withBuffer hencode { w with currentHeader := some header }

theorem checkedSub_eq_ok {a b n : Nat} (h : checkedSub a b = .ok n) : b ≤ a ∧ n = a - b := by
  rw [checkedSub] at h
  split at h
  · cases h
    exact ⟨‹_›, rfl⟩
  · cases h

theorem keepsSize_append (buf : Bytes) : KeepsSize (append buf) := by
  intro w
  simp only [append, get_bind_apply]
  cases hspace : w.space with
  | error e => exact Eq.refl w.buffer.length
  | ok n =>
      simp only [fromResult_ok_bind, set_bind_apply, pure_apply, after_ok]
      refine splice_length ?_
      obtain ⟨size, hsize, hn⟩ := except_bind_eq_ok.mp hspace
      have hblock := checkedSub_eq_ok hsize
      have hroom := checkedSub_eq_ok hn
      rw [List.length_take]
      omega

/-- Sealing overwrites a window that lies in the slice. -/
theorem encrypt_sameSize {P : Primitives cs} {s : KeyScheduleState cs} {b : CryptoBuffer}
    (hb : b.WF) : CryptoBuffer.SameSize b (after (encrypt P s b)) := by
  simp only [encrypt, KeyScheduleState.getKey, KeyScheduleState.getNonce, mapError_ok_eq,
    fromResult_ok_bind, get_bind_apply]
  split
  · exact Eq.refl b.buf.length
  cases hct : P.aeadSeal s.key (KeyScheduleState.nonce s.counter s.iv)
      (additionalData (b.len + cs.tagSize)) b.asSlice with
  | none =>
      rw [mapError_of_error (CryptoBuffer.encryptInPlace_of_none hct)]
      exact Eq.refl b.buf.length
  | some ciphertext =>
      let b' : CryptoBuffer := { b with buf := splice b.buf b.offset (ciphertext.take b.len) }
      have hoverwrite : CryptoBuffer.SameSize b b' := by
        simp only [CryptoBuffer.WF] at hb
        exact splice_length (by rw [List.length_take]; omega)
      have htag := (keepsSize_extendFromSlice (ciphertext.drop b.len)).mapError
        (g := fun _ => Stop.err .invalidApplicationData) b'
      have hsplit : CryptoBuffer.encryptInPlace P s.key (KeyScheduleState.nonce s.counter s.iv)
          (additionalData (b.len + cs.tagSize)) b =
          CryptoBuffer.extendFromSlice (ciphertext.drop b.len) b' := by
        simp only [CryptoBuffer.encryptInPlace, get_bind_apply, hct, set_bind_apply, b']
      rw [mapError, hsplit]
      exact IsTrans.trans _ _ _ hoverwrite htag

/-- The window behind the header is sealed and the header is taken in again. -/
theorem sealWindow_sameSize {P : Primitives cs} {s : KeyScheduleState cs} {b : CryptoBuffer}
    (hb : b.WF) : CryptoBuffer.SameSize b (after ((do
      CryptoBuffer.offsetTo HEADER_SIZE
      encrypt P s
      CryptoBuffer.offsetTo 0 : CryptoBuffer.Op) b)) := by
  cases hmove : CryptoBuffer.offsetTo HEADER_SIZE b with
  | error e b' =>
      rw [bind_of_error hmove]
      exact (keepsSize_offsetTo _).error hmove
  | ok u b' =>
      rw [bind_of_ok hmove]
      obtain ⟨hhead, rfl⟩ := CryptoBuffer.offsetTo_eq_ok hmove
      have hmoved : (b.moveTo HEADER_SIZE).WF := by
        simp only [CryptoBuffer.WF, CryptoBuffer.moveTo] at hb ⊢
        omega
      have hsealed := encrypt_sameSize (P := P) (s := s) hmoved
      cases hencrypt : encrypt P s (b.moveTo HEADER_SIZE) with
      | error e b' =>
          rw [hencrypt] at hsealed
          rw [bind_of_error hencrypt]
          exact hsealed
      | ok u b' =>
          rw [hencrypt] at hsealed
          rw [bind_of_ok hencrypt]
          exact IsTrans.trans _ _ _ hsealed (keepsSize_offsetTo 0 b')

theorem keepsSize_sealRecord (P : Primitives cs) (s : KeyScheduleState cs)
    (header : ClientRecordHeader) : CryptoBuffer.KeepsSize (sealRecord P s header) := by
  intro b
  rw [sealRecord]
  split
  · exact Eq.refl b.buf.length
  cases hpush : mapError Stop.err (orEncodeError (CryptoBuffer.push header.trailerContentType.toU8))
      b with
  | error e b' =>
      rw [bind_of_error hpush]
      exact (keepsSize_pushByte _).mapError.error hpush
  | ok u b' =>
      -- a byte that was pushed went into a window inside the slice
      have hwf : b.WF := CryptoBuffer.wf_of_push (mapError_eq_ok.mp (mapError_eq_ok.mp hpush))
      have hpushed := (((CryptoBuffer.appends_push _).mapError _).mapError _).of_ok hwf hpush
      have hwf' : b'.WF := by
        rw [hpushed.2]
        exact CryptoBuffer.appended_wf hwf hpushed.1
      rw [bind_of_ok hpush]
      exact IsTrans.trans _ _ _ ((keepsSize_pushByte _).mapError.ok hpush) (sealWindow_sameSize hwf')

theorem keepsSize_finishRecord : KeepsSize finishRecord := by
  intro w
  simp only [finishRecord, get_bind_apply]
  split
  · exact Eq.refl w.buffer.length
  · rename_i hinside
    simp only [HEADER_SIZE] at hinside
    exact splice_length (by rw [bigEndian_length]; omega)

theorem keepsSize_closeRecord (P : Primitives cs) (s : KeyScheduleState cs) :
    KeepsSize (closeRecord P s) := by
  intro w
  simp only [closeRecord, get_bind_apply]
  cases w.currentHeader with
  | none => exact Eq.refl w.buffer.length
  | some header =>
      simp only [set_bind_apply]
      exact ((keepsSize_withBuffer (keepsSize_sealRecord P s header)).bind fun _ =>
        keepsSize_finishRecord) { w with currentHeader := none }

end WriteBuffer

namespace RecordWriter

abbrev SameSize : RecordWriter → RecordWriter → Prop := Same (·.buffer.buffer.length)

/-- The window is overwritten by as much as it holds. -/
theorem splice_asSlice_length {b : CryptoBuffer} {data : Bytes}
    (h : data.length = b.asSlice.length) : (splice b.buf b.offset data).length = b.buf.length := by
  rw [CryptoBuffer.asSlice, List.length_take, List.length_drop] at h
  cases data with
  | nil => rw [splice_nil]
  | cons x data =>
      refine splice_length ?_
      rw [List.length_cons] at h ⊢
      omega

theorem fill_sameSize (P : Primitives cs) (ks : WriteKeySchedule cs) (record : SentRecord cs) :
    Keeps (Same fun p : CryptoBuffer × Option Bytes => p.1.buf.length) (record.fill P ks) := by
  have hcrypto : ∀ {op : CryptoBuffer.Op}, CryptoBuffer.KeepsSize op →
      Keeps (Same fun p : CryptoBuffer × Option Bytes => p.1.buf.length) (Filling.onCrypto op) :=
    fun hop => hop.onPart fun _ _ h => h
  have hfinish : Keeps (Same fun p : CryptoBuffer × Option Bytes => p.1.buf.length)
      (record.finish P ks) := by
    refine Keeps.get.bind fun p => ?_
    split
    · exact .throw _
    · refine (record.finishRecord_keeps_length P ks).onPart fun p f hf => ?_
      exact splice_asSlice_length hf
  exact Keeps.get.bind fun _ => (hcrypto (keepsSize_offsetTo _)).bind fun _ =>
    (hcrypto record.keepsSize_encodePayload).bind fun _ => hfinish.bind fun _ =>
    hcrypto (keepsSize_offsetTo 0)

theorem keepsSize_onBuffer {x : WriteBuffer.M α} (hx : WriteBuffer.KeepsSize x) :
    Keeps SameSize (onBuffer x) := hx.onPart fun _ _ h => h

theorem keepsSize_withBuffer_fill (P : Primitives cs) (ks : WriteKeySchedule cs)
    (record : SentRecord cs) : Keeps SameSize (withBuffer (record.fill P ks)) := by
  intro o
  have hfill := fill_sameSize P ks record (.wrapWithPos o.buffer.buffer o.buffer.pos, o.transcript)
  rw [withBuffer]
  split
  next hrun =>
    rw [hrun] at hfill
    exact hfill
  next hrun =>
    rw [hrun] at hfill
    exact hfill

theorem keepsSize_writeRecord (P : Primitives cs) (ks : WriteKeySchedule cs)
    (record : SentRecord cs) : Keeps SameSize (writeRecord P ks record) := by
  refine Keeps.get.bind fun o => ?_
  split
  · exact .throw _
  · exact (keepsSize_onBuffer (WriteBuffer.keepsSize_startRecord _)).bind fun _ =>
      (keepsSize_withBuffer_fill P ks record).bind fun _ =>
      keepsSize_onBuffer (WriteBuffer.keepsSize_closeRecord P ks.state)

/-- A record that was written was closed in the same slice. -/
theorem writeRecord_closed {P : Primitives cs} {ks : WriteKeySchedule cs} {record : SentRecord cs}
    {o o' : RecordWriter} {out : Bytes} (h : writeRecord P ks record o = .ok out o') :
    ∃ o₁ o₂ : RecordWriter, o.SameSize o₁ ∧
      WriteBuffer.closeRecord P ks.state o₁.buffer = .ok out o₂.buffer := by
  obtain ⟨o₁, o₂, w, hstart, hfill, hclosed, -⟩ := writeRecord_steps h
  refine ⟨o₂, { o₂ with buffer := w }, ?_, hclosed⟩
  exact IsTrans.trans _ _ _ ((keepsSize_onBuffer (WriteBuffer.keepsSize_startRecord _)).ok hstart)
    ((keepsSize_withBuffer_fill P ks record).ok hfill)

end RecordWriter

/-- The most a protected record may carry. -/
def MAX_BODY : Nat := 2 ^ 14 + 256

/-- The length field is the length of the body, which is within the limit. -/
structure WithinLimit (record : Bytes) : Prop where
  header : HEADER_SIZE ≤ record.length
  length : fromBigEndian ((record.drop 3).take 2) = (record.drop HEADER_SIZE).length
  limit : (record.drop HEADER_SIZE).length ≤ MAX_BODY

/-- A record whose length field was filled in with its length, cut to two bytes. -/
theorem withinLimit_iff {record : Bytes} (hheader : HEADER_SIZE ≤ record.length)
    (hfield : (record.drop 3).take 2 = bigEndian 2 (record.length - HEADER_SIZE)) :
    WithinLimit record ↔ record.length ≤ HEADER_SIZE + MAX_BODY := by
  have hdrop : (record.drop HEADER_SIZE).length = record.length - HEADER_SIZE := List.length_drop
  constructor
  · intro h
    have := h.limit
    omega
  · intro hle
    have hsmall : record.length - HEADER_SIZE < 256 ^ 2 := by
      simp only [HEADER_SIZE, MAX_BODY] at hle ⊢
      omega
    refine ⟨hheader, ?_, by omega⟩
    rw [hfield, fromBigEndian_bigEndian, Nat.mod_eq_of_lt hsmall, hdrop]

namespace WriteBuffer

/-- A record that was closed is at most as long as the buffer and has its length, cut to two
bytes, in its header. -/
theorem closeRecord_written {P : Primitives cs} {s : KeyScheduleState cs} {w w' : WriteBuffer}
    {out : Bytes} (h : closeRecord P s w = .ok out w') :
    out.length ≤ w.buffer.length ∧ (WithinLimit out ↔ out.length ≤ HEADER_SIZE + MAX_BODY) := by
  simp only [closeRecord, get_bind_apply] at h
  cases hheader : w.currentHeader with
  | none =>
      rw [hheader] at h
      cases h
  | some header =>
      simp only [hheader, set_bind_apply] at h
      obtain ⟨_, w₁, hseal, hfinish⟩ := bind_eq_ok.mp h
      have hsize := (keepsSize_withBuffer (keepsSize_sealRecord P s header)).ok hseal
      obtain ⟨hlow, hinside, rfl⟩ := finishRecord_eq_ok hfinish
      simp only [HEADER_SIZE] at hlow
      let field := bigEndian 2 (w₁.pos - HEADER_SIZE)
      have hspliced : (splice w₁.buffer 3 field).length = w₁.buffer.length :=
        splice_length (by rw [bigEndian_length]; omega)
      have hlength : ((splice w₁.buffer 3 field).take w₁.pos).length = w₁.pos := by
        rw [List.length_take, hspliced]
        omega
      have hfield : (((splice w₁.buffer 3 field).take w₁.pos).drop 3).take 2 = field := by
        have hthree : (w₁.buffer.take 3).length = 3 := by
          rw [List.length_take]
          omega
        have hfront := congrArg (List.drop 3) (@take_splice_end _ w₁.buffer 3 field (by omega))
        rw [bigEndian_length, List.drop_take, List.drop_left' hthree] at hfront
        rw [List.drop_take, List.take_take, Nat.min_eq_left (by omega)]
        exact hfront
      refine ⟨?_, withinLimit_iff (by rw [hlength, HEADER_SIZE]; omega) (by rw [hlength]; exact hfield)⟩
      rw [hlength, ← (show w₁.buffer.length = w.buffer.length from hsize)]
      omega

end WriteBuffer

/-- A call on a write buffer, with the key schedules its caller passes. -/
inductive WriteCall (cs : TlsCipherSuite)
  | startRecord (header : ClientRecordHeader)
  | append (buf : Bytes)
  | closeRecord (ks : WriteKeySchedule cs)
  | writeRecord (ks : WriteKeySchedule cs) (transcript : Option Bytes) (record : SentRecord cs)

namespace WriteCall

/-- The call, and the record it returns if it returns one. -/
def run (P : Primitives cs) : WriteCall cs → WriteBuffer.M (Option Bytes)
  | startRecord header => do
      WriteBuffer.startRecord header
      return none
  | append buf => do
      let _ ← WriteBuffer.append buf
      return none
  | closeRecord ks => do
      let record ← WriteBuffer.closeRecord P ks.state
      return some record
  | writeRecord ks transcript record => fun w =>
      match RecordWriter.writeRecord P ks record ⟨w, transcript⟩ with
      | .ok out o => .ok (some out) o.buffer
      | .error e o => .error e o.buffer

/-- The records that calls return one after the other. An error is the caller's to go on from;
a panic ends the run. -/
def records (P : Primitives cs) : List (WriteCall cs) → WriteBuffer → List Bytes
  | [], _ => []
  | call :: calls, w =>
      match call.run P w with
      | .ok record w' => record.toList ++ records P calls w'
      | .error .panic _ => []
      | .error _ w' => records P calls w'

variable {P : Primitives cs}

theorem run_writeRecord_of_ok {ks : WriteKeySchedule cs} {transcript : Option Bytes}
    {record : SentRecord cs} {w : WriteBuffer} {out : Bytes} {o : RecordWriter}
    (h : RecordWriter.writeRecord P ks record ⟨w, transcript⟩ = .ok out o) :
    (writeRecord ks transcript record).run P w = .ok (some out) o.buffer := by
  simp only [run, h]

/-- What one call does: the slice keeps its length, and a record is one that was closed in it. -/
theorem keepsSize_run (call : WriteCall cs) : WriteBuffer.KeepsSize (call.run P) := by
  cases call with
  | startRecord header => exact (WriteBuffer.keepsSize_startRecord header).bind fun _ => .pure _
  | append buf => exact (WriteBuffer.keepsSize_append buf).bind fun _ => .pure _
  | closeRecord ks => exact (WriteBuffer.keepsSize_closeRecord P ks.state).bind fun _ => .pure _
  | writeRecord ks transcript record =>
      intro w
      have := RecordWriter.keepsSize_writeRecord P ks record ⟨w, transcript⟩
      cases hrun : RecordWriter.writeRecord P ks record ⟨w, transcript⟩ with
      | ok out o =>
          rw [hrun] at this
          rw [run_writeRecord_of_ok hrun]
          exact this
      | error e o =>
          rw [hrun] at this
          simp only [run, hrun]
          exact this

theorem run_eq_ok {call : WriteCall cs} {w w' : WriteBuffer} {record : Bytes}
    (h : call.run P w = .ok (some record) w') :
    ∃ (ks : KeyScheduleState cs) (w₀ w₁ : WriteBuffer), w.SameSize w₀ ∧
      WriteBuffer.closeRecord P ks w₀ = .ok record w₁ := by
  cases call with
  | startRecord header =>
      obtain ⟨_, _, -, ⟨⟩⟩ := bind_eq_ok.mp h
  | append buf =>
      obtain ⟨_, _, -, ⟨⟩⟩ := bind_eq_ok.mp h
  | closeRecord ks =>
      obtain ⟨out, w₁, hclose, hout⟩ := bind_eq_ok.mp h
      cases hout
      exact ⟨ks.state, w, w', Eq.refl w.buffer.length, hclose⟩
  | writeRecord ks transcript sent =>
      cases hrun : RecordWriter.writeRecord P ks sent ⟨w, transcript⟩ with
      | error e o =>
          simp only [run, hrun] at h
          cases h
      | ok out o =>
          rw [run_writeRecord_of_ok hrun] at h
          cases h
          obtain ⟨o₁, o₂, hsize, hclose⟩ := RecordWriter.writeRecord_closed hrun
          exact ⟨ks.state, o₁.buffer, o₂.buffer, hsize, hclose⟩

/-- No record is longer than the slice. -/
theorem records_length (calls : List (WriteCall cs)) {w : WriteBuffer} {record : Bytes}
    (h : record ∈ records P calls w) :
    record.length ≤ w.buffer.length ∧
      (WithinLimit record ↔ record.length ≤ HEADER_SIZE + MAX_BODY) := by
  induction calls generalizing w with
  | nil => cases h
  | cons call calls ih =>
      have hsize := keepsSize_run (P := P) call w
      cases hrun : call.run P w with
      | ok out w' =>
          simp only [hrun, after_ok] at hsize
          simp only [records, hrun, List.mem_append, Option.mem_toList] at h
          rcases h with rfl | h
          · obtain ⟨ks, w₀, w₁, hw₀, hclose⟩ := run_eq_ok hrun
            obtain ⟨hle, hiff⟩ := WriteBuffer.closeRecord_written hclose
            exact ⟨hle.trans_eq hw₀, hiff⟩
          · obtain ⟨hle, hiff⟩ := ih h
            exact ⟨hle.trans_eq hsize, hiff⟩
      | error e w' =>
          simp only [hrun, after_error] at hsize
          cases e with
          | panic =>
              simp only [records, hrun] at h
              cases h
          | _ =>
              simp only [records, hrun] at h
              obtain ⟨hle, hiff⟩ := ih h
              exact ⟨hle.trans_eq hsize, hiff⟩

end WriteCall

/-- A client certificate that is sent unprotected and fills a buffer of `size` bytes. -/
def fillerRecord (cs : TlsCipherSuite) (size : Nat) : SentRecord cs :=
  .later (.handshake (.clientCert ⟨[], [], [.x509 (List.replicate (size - 18) 0)]⟩) false)

theorem fillerRecord_payload {size : Nat} (h : 18 ≤ size) :
    (fillerRecord cs size).payload.length = size - HEADER_SIZE := by
  simp [fillerRecord, SentRecord.payload, ClientHandshake.wire, ClientHandshake.innerWire,
    ClientHandshake.encodable, HEADER_SIZE]
  omega

theorem fillerRecord_written (P : Primitives cs) (ks : WriteKeySchedule cs) {w : WriteBuffer}
    (hw : w.Idle) (h : 18 ≤ w.buffer.length) :
    ∃ record, record ∈ WriteCall.records P
        [.writeRecord ks (some []) (fillerRecord cs w.buffer.length)] w ∧
      record.length = w.buffer.length := by
  have hlength := @fillerRecord_payload cs _ h
  have hroom : HEADER_SIZE + (fillerRecord cs w.buffer.length).payload.length ≤ w.buffer.length := by
    rw [hlength, HEADER_SIZE]
    omega
  obtain ⟨m, w₁, hmessage, hheld, -, hwrite⟩ := @RecordWriter.writeRecord_of_idle cs P ks
    (fillerRecord cs w.buffer.length) ⟨w, some []⟩ _ hw hroom rfl rfl trivial
  obtain rfl : (fillerRecord cs w.buffer.length).payload = m := Except.ok.inj hmessage
  obtain ⟨buffer, hclose, -⟩ := WriteBuffer.closeRecord_plain (P := P) (s := ks.state) hheld rfl
  have hrun := WriteCall.run_writeRecord_of_ok (hwrite.trans (onPart_of_ok hclose))
  refine ⟨(fillerRecord cs w.buffer.length).header.bytes ++
    sized 2 (fillerRecord cs w.buffer.length).payload, ?_, ?_⟩
  · simp only [WriteCall.records, hrun]
    exact List.mem_singleton_self _
  · rw [List.length_append, ClientRecordHeader.bytes_length, sized_length, hlength]
    simp only [HEADER_SIZE]
    omega

namespace Server

/-- The length of a sealed record is in its header. -/
theorem withinLimit_protectedRecord (ciphertext : Bytes) :
    WithinLimit (protectedRecord ciphertext) ↔ ciphertext.length ≤ MAX_BODY := by
  have hlength := protectedRecord_length ciphertext
  rw [withinLimit_iff (by rw [hlength]; exact Nat.le_add_right _ _), hlength, HEADER_SIZE]
  · omega
  · rw [hlength, HEADER_SIZE, Nat.add_sub_cancel_left]
    simp [protectedRecord, protectedHeader]

end Server

/-- The server's records are within the limit when their plaintext is; the client's are, in
every run, when its buffer is no longer than the longest record allowed. -/
theorem record_limit_iff (P : Primitives cs) :
    (∀ (s s' : Server.Session cs) (plaintext out record : Bytes),
      Server.Session.encryptAppData P plaintext out s = .ok record s' →
      (WithinLimit record ↔ plaintext.length + 1 + cs.tagSize ≤ MAX_BODY)) ∧
    (∀ (buffer : Bytes) (w : WriteBuffer), WriteBuffer.new buffer = .ok w →
      ((∀ calls, ∀ record ∈ WriteCall.records P calls w, WithinLimit record) ↔
        buffer.length ≤ HEADER_SIZE + MAX_BODY)) := by
  constructor
  · intro s s' plaintext out record h
    obtain ⟨-, ciphertext, hseal, rfl, -⟩ := Server.Session.encryptAppData_eq_ok.mp h
    rw [Server.withinLimit_protectedRecord, Server.sealedWith_length hseal]
  · intro buffer w hnew
    rw [WriteBuffer.new] at hnew
    split at hnew
    case isFalse => cases hnew
    case isTrue hlarge =>
      cases hnew
      constructor
      · intro hall
        obtain ⟨record, hrecord, hlength⟩ := fillerRecord_written (w := ⟨buffer, 0, none⟩) P
          ⟨.new, .uninitialized⟩ ⟨rfl, rfl⟩ (Nat.le_trans (by decide) (Nat.le_of_lt hlarge))
        have hwithin := hall _ record hrecord
        rw [(WriteCall.records_length _ hrecord).2, hlength] at hwithin
        exact hwithin
      · intro hsmall calls record hrecord
        obtain ⟨hle, hiff⟩ := WriteCall.records_length calls hrecord
        exact hiff.mpr (hle.trans hsmall)

/-- The server seals 20000 bytes into one record. -/
theorem longPlaintext_over_limit :
    let P := Primitives.checksumming .aes128GcmSha256
    ∃ record s', Server.Session.encryptAppData P (List.replicate 20000 0) (List.replicate 30000 0)
        .new = .ok record s' ∧ ¬WithinLimit record := by
  intro P
  obtain ⟨ciphertext, hseal⟩ : ∃ ciphertext, Server.sealedWith P
      (Server.Session.new : Server.Session .aes128GcmSha256).schedule.serverState.state
      (List.replicate 20000 0) .applicationData = some ciphertext := ⟨_, rfl⟩
  refine ⟨_, _, Server.Session.encryptAppData_eq_ok.mpr
    ⟨⟨?_, ?_, by rw [hseal]; rfl, by decide⟩, ciphertext, hseal, rfl, rfl⟩, ?_⟩
  · rw [List.length_replicate, List.length_replicate]
    decide
  · rw [List.length_replicate]
    decide
  · rw [Server.withinLimit_protectedRecord, Server.sealedWith_length hseal, List.length_replicate]
    decide

theorem smallBuffer_within_limit :
    let P := Primitives.checksumming .aes128GcmSha256
    (∃ record s', Server.Session.encryptAppData P [1, 2, 3] (List.replicate 64 0) .new =
        .ok record s' ∧ WithinLimit record) ∧
    ∀ calls, ∀ record ∈ WriteCall.records P calls ⟨List.replicate 512 0, 0, none⟩,
      WithinLimit record := by
  intro P
  refine ⟨?_, ?_⟩
  · have hok : (outcome (Server.Session.encryptAppData P [1, 2, 3] (List.replicate 64 0) .new)).isOk := by
      decide +kernel
    cases hrun : Server.Session.encryptAppData P [1, 2, 3] (List.replicate 64 0) .new with
    | error e s' =>
        rw [hrun] at hok
        cases hok
    | ok record s' =>
        exact ⟨record, s', rfl, ((record_limit_iff P).1 _ _ _ _ _ hrun).mpr (by decide)⟩
  refine ((record_limit_iff P).2 (List.replicate 512 0) _ ?_).mpr ?_
  · rw [WriteBuffer.new, if_pos (by rw [List.length_replicate]; decide)]
  · rw [List.length_replicate]
    decide

end GatoPskTls
