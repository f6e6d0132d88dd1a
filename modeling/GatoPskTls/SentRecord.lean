import GatoPskTls.ClientHelloBinders
import GatoPskTls.WriteBufferSpec
import GatoPskTls.Aead
import GatoPskTls.Rfc8446

/-!
# Every record a client writes

`WriteBuffer::write_record` for all the records of the client, the ClientHello among them,
and what a record that was written looks like on the wire.
-/
namespace GatoPskTls

open Stateful BigEndian CryptoBuffer Splice

variable {cs : TlsCipherSuite}

/-- `ClientRecord`, with the ClientHello beside the messages behind it. -/
inductive SentRecord (cs : TlsCipherSuite)
  | clientHello (hello : ClientHello cs) (encrypted : Bool)
  | later (record : ClientRecord cs)

/-- The write buffer, and the transcript if the caller passes one. -/
structure RecordWriter where
  buffer : WriteBuffer
  transcript : Option Bytes

/-- A step of filling a record. -/
abbrev Filling := EStateM Stop (CryptoBuffer × Option Bytes) Unit

def Filling.onCrypto (op : CryptoBuffer.Op) : Filling := onPart (·.1) (fun p b => (b, p.2)) op

theorem Filling.onCrypto_of_ok {op : CryptoBuffer.Op} {b b' : CryptoBuffer} {u : Unit}
    (h : op b = .ok u b') (t : Option Bytes) : Filling.onCrypto op (b, t) = .ok u (b', t) :=
  onPart_of_ok h

theorem Filling.onCrypto_eq_ok {op : CryptoBuffer.Op} {b : CryptoBuffer} {t : Option Bytes}
    {p : CryptoBuffer × Option Bytes} :
    Filling.onCrypto op (b, t) = .ok () p ↔ ∃ b', op b = .ok () b' ∧ p = (b', t) := onPart_eq_ok

namespace SentRecord

def header : SentRecord cs → ClientRecordHeader
  | clientHello _ encrypted => .handshake encrypted
  | later record => record.header

def encodePayload : SentRecord cs → CryptoBuffer.Op
  | clientHello hello _ => mapError .err hello.encodeHandshake
  | later record => record.encodePayload

/-- Only an unencrypted ClientHello is changed while it goes into the transcript. -/
def finishRecord (P : Primitives cs) (ks : WriteKeySchedule cs) :
    SentRecord cs → EStateM Stop Finalizing Unit
  | clientHello hello false => hello.finalize P ks
  | clientHello _ true | later (.handshake _ _) => modify fun f => f.updateTranscript f.encBuf
  | later (.alert _ _) => pure ()

/-- The transcript is asked for behind the encoding. -/
def finish (P : Primitives cs) (ks : WriteKeySchedule cs) (record : SentRecord cs) : Filling := do
  match (← get).2 with
  | none => throw (.err .internalError)
  | some transcript =>
      onPart (fun p => ⟨p.1.asSlice, transcript⟩)
        (fun p f => ({ p.1 with buf := splice p.1.buf p.1.offset f.encBuf }, some f.transcript))
        (record.finishRecord P ks)

def fill (P : Primitives cs) (ks : WriteKeySchedule cs) (record : SentRecord cs) : Filling := do
  let start := (← get).1.len
  Filling.onCrypto (CryptoBuffer.offsetTo start)
  Filling.onCrypto record.encodePayload
  record.finish P ks
  Filling.onCrypto (CryptoBuffer.offsetTo 0)

end SentRecord

namespace RecordWriter

def onBuffer {α : Type} (x : WriteBuffer.M α) : EStateM Stop RecordWriter α :=
  onPart (·.buffer) (fun o buffer => { o with buffer }) x

def withBuffer (op : Filling) : EStateM Stop RecordWriter Unit := fun o =>
  match op (.wrapWithPos o.buffer.buffer o.buffer.pos, o.transcript) with
  | .ok () (b, transcript) => .ok () ⟨{ o.buffer with buffer := b.buf, pos := b.len }, transcript⟩
  | .error e (b, transcript) => .error e ⟨{ o.buffer with buffer := b.buf }, transcript⟩

def writeRecord (P : Primitives cs) (ks : WriteKeySchedule cs) (record : SentRecord cs) :
    EStateM Stop RecordWriter Bytes := do
  if (← get).buffer.currentHeader.isSome then throw (.err .internalError)
  else do
    onBuffer (WriteBuffer.startRecord record.header)
    withBuffer (record.fill P ks)
    onBuffer (WriteBuffer.closeRecord P ks.state)

end RecordWriter

namespace ClientHandshake

def innerWire : ClientHandshake cs → Bytes
  | clientCert certificate => sized 1 certificate.requestContext ++
      sized 3 ((encodable certificate.entries).flatMap fun cert => sized 3 cert ++ bigEndian 2 0)
  | clientCertVerify verify =>
      bigEndian 2 verify.signatureScheme.asU16 ++ sized 2 verify.signature
  | finished f => f.verify.val

def wire (message : ClientHandshake cs) : Bytes :=
  [message.handshakeType.toU8] ++ sized 3 message.innerWire

theorem appends_encodeInner (message : ClientHandshake cs) :
    Appends message.encodeInner message.innerWire := by
  cases message with
  | clientCert certificate =>
      refine (appends_withU8Length (appends_extendFromSlice _)).bind (appends_withU24Length ?_)
      exact .forM _ fun cert _ => (appends_withU24Length (appends_extendFromSlice cert)).bind
        (appends_extendFromSlice _)
  | clientCertVerify verify =>
      exact (appends_extendFromSlice _).bind (appends_withU16Length (appends_extendFromSlice _))
  | finished f => exact (appends_extendFromSlice _).mapError _

theorem appends_encode (message : ClientHandshake cs) : Appends message.encode message.wire :=
  (appends_pushByte _).bind (appends_withU24Length message.appends_encodeInner)

end ClientHandshake

theorem KeySchedule.createPskBinder_eq_error {P : Primitives cs} {ks : WriteKeySchedule cs}
    {transcript : Bytes} {e : TlsError} (h : createPskBinder P ks transcript = .error e) :
    ks.binderKey = .uninitialized := by
  cases hkey : ks.binderKey with
  | uninitialized => rfl
  | initialized prk =>
      rw [createPskBinder, hkey, finishedMac_eq, ok_bind] at h
      cases h

namespace SentRecord

/-- What is encoded, before a ClientHello gets its binders. -/
def payload : SentRecord cs → Bytes
  | clientHello hello _ => hello.framed.wire
  | later (.handshake message _) => message.wire
  | later (.alert a _) => [a.level.toU8, a.description.toU8]

/-- The encoded message. -/
def message (P : Primitives cs) (ks : WriteKeySchedule cs) (transcript : Bytes) :
    SentRecord cs → Except TlsError Bytes
  | clientHello hello false => hello.finalized <$> hello.binders P ks transcript
  | record => .ok record.payload

/-- A raw public key among the certificates is a `todo!`. -/
def panics : SentRecord cs → Bool
  | later (.handshake message _) => message.panics
  | _ => false

/-- The key for the binders of a ClientHello is there. -/
def HasBinderKey (ks : WriteKeySchedule cs) : SentRecord cs → Prop
  | clientHello hello false => hello.config.identities = [] ∨ ks.binderKey ≠ .uninitialized
  | _ => True

/-- What a message adds to the transcript. -/
def transcribed : SentRecord cs → Bytes → Bytes
  | clientHello _ _, message => message
  | later record, message => record.transcribed message

variable {P : Primitives cs} {ks : WriteKeySchedule cs} {record : SentRecord cs}

theorem encodePayload_eq_ok {b b' : CryptoBuffer} (hb : b.WF)
    (h : record.encodePayload b = .ok () b') :
    record.payload.length ≤ b.space ∧ b' = b.appended record.payload := by
  cases record with
  | clientHello hello encrypted => exact (hello.appends_encodeHandshake.mapError _).of_ok hb h
  | later record =>
      cases record with
      | alert a encrypted => exact (a.appends_encode.mapError _).of_ok hb h
      | handshake message encrypted =>
          obtain ⟨_, b₁, hencode, hrest⟩ := bind_eq_ok.mp h
          have hwritten := (message.appends_encode.mapError _).of_ok hb hencode
          split at hrest
          · cases hrest
          · cases hrest
            exact hwritten

theorem encodePayload_of_fits {b : CryptoBuffer} (hb : b.WF)
    (hfits : record.payload.length ≤ b.space) :
    record.encodePayload b =
      if record.panics then .error .panic (b.appended record.payload)
      else .ok () (b.appended record.payload) := by
  rcases record with ⟨hello, encrypted⟩ | ⟨message, encrypted⟩ | ⟨a, encrypted⟩
  · exact (hello.appends_encodeHandshake.mapError _).ok hb hfits
  · refine (bind_of_ok ((message.appends_encode.mapError _).ok hb hfits)).trans ?_
    rw [panics]
    split <;> rfl
  · exact (a.appends_encode.mapError _).ok hb hfits

theorem finishRecord_eq_ok {transcript : Bytes} {f : Finalizing}
    (h : record.finishRecord P ks ⟨record.payload, transcript⟩ = .ok () f) :
    record.message P ks transcript = .ok f.encBuf ∧ f.encBuf.length = record.payload.length ∧
      f.transcript = transcript ++ record.transcribed f.encBuf := by
  rcases record with ⟨hello, _ | _⟩ | ⟨message, encrypted⟩ | ⟨a, encrypted⟩
  · cases hbinders : hello.binders P ks transcript with
    | ok bs =>
        rw [finishRecord, payload, ClientHello.finalize_of_ok hbinders] at h
        cases h
        refine ⟨by rw [message, hbinders]; rfl, ?_, rfl⟩
        rw [payload, ← hello.beforeBinders_length, ClientHello.finalized, List.length_append,
          ClientHello.bindersWire_length, ClientHello.binders_length hbinders]
    | error e =>
        obtain ⟨f, hf⟩ := ClientHello.finalize_of_error hbinders
        rw [finishRecord, payload, hf] at h
        cases h
  · cases h
    exact ⟨rfl, rfl, rfl⟩
  · cases h
    exact ⟨rfl, rfl, rfl⟩
  · cases h
    exact ⟨rfl, rfl, (List.append_nil _).symm⟩

theorem finishRecord_of_hasBinderKey (hkey : record.HasBinderKey ks) (t : Bytes) :
    ∃ f, record.finishRecord P ks ⟨record.payload, t⟩ = .ok () f := by
  rcases record with ⟨hello, _ | _⟩ | ⟨message, encrypted⟩ | ⟨a, encrypted⟩
  · cases hbinders : hello.binders P ks t with
    | ok bs => exact ⟨_, ClientHello.finalize_of_ok hbinders⟩
    | error e =>
        obtain ⟨hcreate, hids⟩ := ClientHello.createPskBinder_of_mapM_error hbinders
        rcases hkey with hnil | hkey
        · exact absurd hnil hids
        · exact absurd (KeySchedule.createPskBinder_eq_error hcreate) hkey
  · exact ⟨_, rfl⟩
  · exact ⟨_, rfl⟩
  · exact ⟨_, rfl⟩

theorem finish_of_ok {b : CryptoBuffer} {t : Bytes} {f : Finalizing}
    (h : record.finishRecord P ks ⟨b.asSlice, t⟩ = .ok () f) :
    ∃ p, record.finish P ks (b, some t) = .ok () p := by
  rw [finish, get_bind_apply]
  exact ⟨_, onPart_of_ok h⟩

/-- The payload is encoded behind what the buffer holds. -/
theorem fill_step (P : Primitives cs) (ks : WriteKeySchedule cs) (record : SentRecord cs)
    (buf : Bytes) (pos : Nat) (transcript : Option Bytes) :
    record.fill P ks (.wrapWithPos buf pos, transcript) =
      (do
        Filling.onCrypto record.encodePayload
        record.finish P ks
        Filling.onCrypto (CryptoBuffer.offsetTo 0) : Filling) (⟨buf, pos, 0⟩, transcript) := by
  have hforward : CryptoBuffer.offsetTo pos (.wrapWithPos buf pos) = .ok () ⟨buf, pos, 0⟩ := by
    rw [CryptoBuffer.offsetTo_eq (by simp [CryptoBuffer.wrapWithPos])]
    simp [CryptoBuffer.wrapWithPos, CryptoBuffer.moveTo]
  rw [fill, get_bind_apply]
  exact bind_of_ok (Filling.onCrypto_of_ok hforward _)

theorem asSlice_of_encoded {buf payload : Bytes} {pos : Nat} (hpos : pos ≤ buf.length) :
    (CryptoBuffer.appended ⟨buf, pos, 0⟩ payload).asSlice = payload := by
  have hslice := @CryptoBuffer.appended_asSlice_drop ⟨buf, pos, 0⟩ payload hpos
  simpa using hslice

section Fill

variable {buf : Bytes} {pos : Nat} (hpos : pos ≤ buf.length) {transcript : Option Bytes}
  (hfits : pos + record.payload.length ≤ buf.length) (hpanics : record.panics = false)
include hpos hfits hpanics

/-- What is left to do when the payload has been encoded. -/
theorem fill_encoded :
    record.fill P ks (.wrapWithPos buf pos, transcript) =
      (do
        record.finish P ks
        Filling.onCrypto (CryptoBuffer.offsetTo 0) : Filling)
        (CryptoBuffer.appended ⟨buf, pos, 0⟩ record.payload, transcript) := by
  have hencode := @encodePayload_of_fits _ record ⟨buf, pos, 0⟩ hpos (by
    simp only [CryptoBuffer.space, CryptoBuffer.capacity]
    omega)
  rw [hpanics, if_neg Bool.false_ne_true] at hencode
  rw [fill_step]
  exact bind_of_ok (Filling.onCrypto_of_ok hencode _)

theorem fill_of_finished (htranscript : transcript.isSome) (hkey : record.HasBinderKey ks) :
    ∃ p, record.fill P ks (.wrapWithPos buf pos, transcript) = .ok () p := by
  obtain ⟨t, rfl⟩ := Option.isSome_iff_exists.mp htranscript
  obtain ⟨f, hfinish⟩ := @finishRecord_of_hasBinderKey _ P ks record hkey t
  rw [← @asSlice_of_encoded buf record.payload pos hpos] at hfinish
  rw [fill_encoded hpos hfits hpanics]
  obtain ⟨⟨b, t'⟩, hdone⟩ := finish_of_ok hfinish
  rw [bind_of_ok hdone]
  exact ⟨_, Filling.onCrypto_of_ok (CryptoBuffer.offsetTo_eq (Nat.zero_le _)) _⟩

end Fill

/-- What stands in the buffer when a record has been filled. -/
theorem fill_eq_ok {buf : Bytes} {pos : Nat} {transcript : Option Bytes}
    {filled : CryptoBuffer × Option Bytes} (hpos : pos ≤ buf.length)
    (h : record.fill P ks (.wrapWithPos buf pos, transcript) = .ok () filled) :
    ∃ t m, transcript = some t ∧ record.message P ks t = .ok m ∧
      m.length = record.payload.length ∧ pos + m.length ≤ buf.length ∧
      filled = (⟨splice buf pos m, 0, pos + m.length⟩, some (t ++ record.transcribed m)) := by
  rw [fill_step] at h
  obtain ⟨_, p₁, hpayload, h⟩ := bind_eq_ok.mp h
  obtain ⟨_, p₂, hfinish, hrewind⟩ := bind_eq_ok.mp h
  let b : CryptoBuffer := ⟨buf, pos, 0⟩
  have hb : b.WF := hpos
  obtain ⟨b₁, hencoded, rfl⟩ := Filling.onCrypto_eq_ok.mp hpayload
  obtain ⟨hroom, rfl⟩ := encodePayload_eq_ok hb hencoded
  have hslice : (b.appended record.payload).asSlice = record.payload := asSlice_of_encoded hpos
  cases transcript with
  | none => cases hfinish
  | some t =>
      rw [finish, get_bind_apply] at hfinish
      obtain ⟨f, hfinished, rfl⟩ := onPart_eq_ok.mp hfinish
      rw [hslice] at hfinished
      obtain ⟨hmessage, hlen, htranscript⟩ := finishRecord_eq_ok hfinished
      obtain ⟨b₃, hrewound, rfl⟩ := onPart_eq_ok.mp hrewind
      rw [CryptoBuffer.offsetTo_eq (Nat.zero_le _)] at hrewound
      cases hrewound
      refine ⟨t, f.encBuf, rfl, hmessage, hlen, ?_, ?_⟩
      · rw [hlen]
        simp only [CryptoBuffer.space, CryptoBuffer.capacity, b] at hroom
        omega
      · have hsplice := @splice_overwrite _ buf pos [] record.payload f.encBuf hpos
          (Nat.le_of_eq hlen.symm)
        simp only [List.nil_append, List.length_nil, Nat.add_zero] at hsplice
        simp only [CryptoBuffer.moveTo, CryptoBuffer.appended, b, Nat.add_zero, Nat.zero_add,
          Nat.sub_zero, hsplice, hlen, htranscript, Nat.add_comm]

end SentRecord

/-- A byte that was written had a buffer to stand in. -/
theorem CryptoBuffer.wf_of_push {byte : UInt8} {b b' : CryptoBuffer}
    (h : CryptoBuffer.push byte b = .ok () b') : b.WF := by
  rw [CryptoBuffer.push] at h
  split at h
  · rename_i hspace
    simp only [CryptoBuffer.space, CryptoBuffer.capacity] at hspace
    simp only [CryptoBuffer.WF]
    omega
  · cases h

theorem CryptoBuffer.offsetTo_eq_ok {b b' : CryptoBuffer} {offset : Nat}
    (h : CryptoBuffer.offsetTo offset b = .ok () b') :
    offset ≤ b.len + b.offset ∧ b' = b.moveTo offset := by
  by_cases hle : offset ≤ b.len + b.offset
  · rw [CryptoBuffer.offsetTo_eq hle] at h
    cases h
    exact ⟨hle, rfl⟩
  · simp only [CryptoBuffer.offsetTo, get_bind_apply, if_pos (Nat.not_le.mp hle)] at h
    cases h

namespace WriteBuffer

variable {w w' : WriteBuffer} {header : ClientRecordHeader}

theorem withBuffer_eq_ok {op : CryptoBuffer.Op} (h : withBuffer op w = .ok () w') :
    ∃ b, op w.crypto = .ok () b ∧ w' = { w with buffer := b.buf, pos := b.len } := by
  cases hop : op w.crypto with
  | ok u b =>
      rw [withBuffer_of_ok hop] at h
      cases h
      exact ⟨b, rfl, rfl⟩
  | error e b =>
      rw [withBuffer_of_error hop] at h
      cases h

/-- A record is started wherever the buffer stands, with room for its header. -/
theorem startRecord_eq_ok (h : startRecord header w = .ok () w') :
    w.pos + 5 ≤ w.buffer.length ∧
      w' = ⟨splice w.buffer w.pos (header.bytes ++ [0, 0]), w.pos + 5, some header⟩ := by
  simp only [startRecord, get_bind_apply] at h
  split at h
  · cases h
  rw [set_bind_apply] at h
  obtain ⟨b, hop, rfl⟩ := withBuffer_eq_ok h
  obtain ⟨_, b₁, hencode, hop⟩ := bind_eq_ok.mp hop
  obtain ⟨_, b₂, hpush, hrewind⟩ := bind_eq_ok.mp hop
  have hwf : w.crypto.WF := by
    obtain ⟨_, _, hfirst, -⟩ := bind_eq_ok.mp (mapError_eq_ok.mp hencode)
    exact CryptoBuffer.wf_of_push (mapError_eq_ok.mp hfirst)
  obtain ⟨hroom, rfl⟩ := (header.appends_encode.mapError _).of_ok hwf hencode
  obtain ⟨hmore, rfl⟩ := (((CryptoBuffer.appends_extendFromSlice _).mapError _).eq_ok hwf hroom).mp hpush
  rw [CryptoBuffer.offsetTo_eq (Nat.zero_le _)] at hrewind
  cases hrewind
  rw [List.length_append, header.bytes_length, bigEndian_length, sink_room] at hmore
  simp only [CryptoBuffer.space, CryptoBuffer.capacity, crypto, CryptoBuffer.wrapWithPos] at hmore
  simp only [CryptoBuffer.WF, crypto, CryptoBuffer.wrapWithPos] at hwf
  refine ⟨by omega, ?_⟩
  simp [CryptoBuffer.moveTo, CryptoBuffer.appended, crypto, CryptoBuffer.wrapWithPos,
    header.bytes_length, bigEndian]

variable {P : Primitives cs} {s : KeyScheduleState cs}

/-- A window that was sealed had room for the tag. -/
theorem encrypt_eq_ok {b b' : CryptoBuffer} (hb : b.WF) (h : encrypt P s b = .ok () b') :
    cs.tagSize ≤ b.space ∧ b'.offset = b.offset ∧ b'.len = b.len + cs.tagSize := by
  have hspace : cs.tagSize ≤ b.space := by
    simp only [encrypt, KeyScheduleState.getKey, KeyScheduleState.getNonce, mapError_ok_eq,
      fromResult_ok_bind, get_bind_apply] at h
    split at h
    · cases h
    have hsealed := mapError_eq_ok.mp h
    cases hct : P.aeadSeal s.key (KeyScheduleState.nonce s.counter s.iv)
        (additionalData (b.len + cs.tagSize)) b.asSlice with
    | none =>
        rw [CryptoBuffer.encryptInPlace_of_none hct] at hsealed
        cases hsealed
    | some ciphertext =>
        have hlen := P.aeadSeal_length hct
        rw [CryptoBuffer.asSlice_length hb] at hlen
        simp only [CryptoBuffer.encryptInPlace, get_bind_apply, hct, set_bind_apply,
          CryptoBuffer.extendFromSlice] at hsealed
        split at hsealed
        · cases hsealed
        rename_i hroom
        simp only [CryptoBuffer.WF] at hb
        simp only [CryptoBuffer.space, CryptoBuffer.capacity, List.length_drop, hlen,
          Nat.add_sub_cancel_left] at hroom ⊢
        rw [splice_length (by rw [List.length_take]; omega)] at hroom
        omega
  rw [encrypt_eq hb hspace] at h
  split at h
  · rename_i ciphertext hct
    have hlen := P.aeadSeal_length hct
    rw [CryptoBuffer.asSlice_length hb] at hlen
    cases h
    exact ⟨hspace, rfl, hlen⟩
  · cases h

/-- How long a record that was closed is, and that there was room to seal it. -/
theorem closeRecord_eq_ok {out : Bytes} (hheader : w.currentHeader = some header)
    (h : closeRecord P s w = .ok out w') :
    out.length = w.pos + (if header.isEncrypted then 1 + cs.tagSize else 0) ∧
      (header.isEncrypted → w.pos + 1 + cs.tagSize ≤ w.buffer.length) := by
  simp only [closeRecord, get_bind_apply, hheader, set_bind_apply] at h
  obtain ⟨_, w₁, hseal, hfinish⟩ := bind_eq_ok.mp h
  obtain ⟨b, hop, rfl⟩ := withBuffer_eq_ok hseal
  have hout : out.length = b.len := by
    obtain ⟨hlow, hinside, rfl⟩ := finishRecord_eq_ok hfinish
    dsimp only [HEADER_SIZE] at hlow hinside ⊢
    rw [List.length_take, splice_length (by rw [bigEndian_length]; omega)]
    exact Nat.min_eq_left hinside
  rw [hout]
  cases henc : header.isEncrypted with
  | false =>
      rw [sealRecord, henc] at hop
      cases hop
      exact ⟨rfl, fun h => absurd h Bool.false_ne_true⟩
  | true =>
      rw [sealRecord, henc] at hop
      obtain ⟨_, b₁, hpush, hop⟩ := bind_eq_ok.mp hop
      obtain ⟨_, b₂, hmove, hop⟩ := bind_eq_ok.mp hop
      obtain ⟨_, b₃, hsealed, hrewind⟩ := bind_eq_ok.mp hop
      have hwf : w.crypto.WF :=
        CryptoBuffer.wf_of_push (mapError_eq_ok.mp (mapError_eq_ok.mp hpush))
      obtain ⟨hroom, rfl⟩ :=
        (((CryptoBuffer.appends_push _).mapError _).mapError _).of_ok hwf hpush
      let b₁ := w.crypto.appended [header.trailerContentType.toU8]
      have hlen₁ : b₁.len = w.pos + 1 := rfl
      have hoffset₁ : b₁.offset = 0 := rfl
      have hbuf₁ : b₁.buf.length = w.buffer.length := by
        rw [List.length_singleton, sink_room] at hroom
        simp only [CryptoBuffer.WF, CryptoBuffer.space, CryptoBuffer.capacity, crypto,
          CryptoBuffer.wrapWithPos] at hwf hroom
        exact splice_length (by
          simp only [crypto, CryptoBuffer.wrapWithPos, List.length_singleton]
          omega)
      have hwf₁ : b₁.WF := CryptoBuffer.appended_wf hwf hroom
      obtain ⟨hhead, rfl⟩ := CryptoBuffer.offsetTo_eq_ok hmove
      simp only [CryptoBuffer.WF, hoffset₁, hlen₁, hbuf₁] at hwf₁
      replace hhead : HEADER_SIZE ≤ w.pos + 1 := hhead
      have hwf₂ : (b₁.moveTo HEADER_SIZE).WF := by
        simp only [CryptoBuffer.WF, CryptoBuffer.moveTo, hoffset₁, hlen₁, hbuf₁]
        omega
      obtain ⟨htag, hoffset, hlen⟩ := encrypt_eq_ok hwf₂ hsealed
      obtain ⟨-, rfl⟩ := CryptoBuffer.offsetTo_eq_ok hrewind
      simp only [CryptoBuffer.space, CryptoBuffer.capacity, CryptoBuffer.moveTo, hoffset₁, hlen₁,
        hbuf₁] at htag hoffset hlen
      simp only [CryptoBuffer.moveTo, hoffset, hlen, if_true]
      omega

end WriteBuffer

section Written

variable {P : Primitives cs} {ks : WriteKeySchedule cs} {record : SentRecord cs} {o o' : RecordWriter}
  {out : Bytes}

/-- The writer with a record started where its buffer stood. -/
def RecordWriter.started (o : RecordWriter) (header : ClientRecordHeader) : RecordWriter where
  buffer := ⟨splice o.buffer.buffer o.buffer.pos (header.bytes ++ [0, 0]), o.buffer.pos + 5,
    some header⟩
  transcript := o.transcript

theorem RecordWriter.started_length {header : ClientRecordHeader}
    (hroom : o.buffer.pos + 5 ≤ o.buffer.buffer.length) :
    (o.started header).buffer.buffer.length = o.buffer.buffer.length :=
  splice_length (by rw [List.length_append, header.bytes_length]; exact hroom)

/-- The message stands behind the header. -/
theorem RecordWriter.fill_eq_ok (hroom : o.buffer.pos + 5 ≤ o.buffer.buffer.length)
    (h : withBuffer (record.fill P ks) (o.started record.header) = .ok () o') :
    ∃ t m, o.transcript = some t ∧ record.message P ks t = .ok m ∧
      m.length = record.payload.length ∧ o'.buffer.currentHeader = some record.header ∧
      o'.buffer.pos = o.buffer.pos + 5 + m.length ∧
      o'.buffer.pos ≤ o'.buffer.buffer.length ∧
      o'.buffer.buffer.length = o.buffer.buffer.length ∧
      o'.buffer.buffer.take o'.buffer.pos =
        o.buffer.buffer.take o.buffer.pos ++ (record.header.bytes ++ ([0, 0] ++ m)) ∧
      o'.transcript = some (t ++ record.transcribed m) := by
  have hbytes : (record.header.bytes ++ [0, 0]).length = 5 := by
    rw [List.length_append, record.header.bytes_length]
    rfl
  have hlength := @started_length o record.header hroom
  let started := (o.started record.header).buffer.buffer
  cases hfilled : record.fill P ks (.wrapWithPos started (o.buffer.pos + 5), o.transcript) with
  | error e p =>
      simp only [withBuffer, RecordWriter.started, started] at h hfilled
      rw [hfilled] at h
      cases h
  | ok u p =>
      obtain ⟨t, m, ht, hmessage, hlen, hfits, rfl⟩ :=
        SentRecord.fill_eq_ok (by rw [hlength]; exact hroom) hfilled
      simp only [withBuffer, RecordWriter.started, started] at h hfilled
      rw [hfilled] at h
      cases h
      have hsame : (splice started (o.buffer.pos + 5) m).length = o.buffer.buffer.length :=
        (splice_length hfits).trans hlength
      refine ⟨t, m, ht, hmessage, hlen, rfl, rfl, ?_, hsame, ?_, rfl⟩
      · rw [hlength] at hfits
        exact Nat.le_trans hfits (Nat.le_of_eq hsame.symm)
      · have htake := @take_splice_end _ o.buffer.buffer o.buffer.pos (record.header.bytes ++ [0, 0])
          (by omega)
        rw [hbytes] at htake
        refine (take_splice_end (Nat.le_trans hroom (Nat.le_of_eq hlength.symm))).trans ?_
        refine (congrArg (· ++ m) htake).trans ?_
        simp only [List.append_assoc]

theorem RecordWriter.withBuffer_of_ok {op : Filling} {b : CryptoBuffer} {t : Option Bytes}
    (h : op (.wrapWithPos o.buffer.buffer o.buffer.pos, o.transcript) = .ok () (b, t)) :
    withBuffer op o = .ok () ⟨{ o.buffer with buffer := b.buf, pos := b.len }, t⟩ := by
  rw [withBuffer, h]

theorem RecordWriter.writeRecord_of_started (hnone : o.buffer.currentHeader = none)
    (hroom : o.buffer.pos + HEADER_SIZE ≤ o.buffer.buffer.length) :
    writeRecord P ks record o =
      (do
        withBuffer (record.fill P ks)
        onBuffer (WriteBuffer.closeRecord P ks.state)) (o.started record.header) := by
  simp only [writeRecord, get_bind_apply, hnone, Option.isSome_none, Bool.false_eq_true, if_false]
  exact bind_of_ok (onPart_of_ok (WriteBuffer.startRecord_of_room hnone hroom))

/-- In an empty buffer with room for it a record is filled; it is left to close it. -/
theorem RecordWriter.writeRecord_of_idle {t : Bytes} (hidle : o.buffer.Idle)
    (hroom : HEADER_SIZE + record.payload.length ≤ o.buffer.buffer.length)
    (ht : o.transcript = some t) (hpanics : record.panics = false) (hkey : record.HasBinderKey ks) :
    ∃ m w, record.message P ks t = .ok m ∧ w.Holds record.header m ∧
      w.buffer.length = o.buffer.buffer.length ∧
      writeRecord P ks record o =
        onBuffer (WriteBuffer.closeRecord P ks.state) ⟨w, some (t ++ record.transcribed m)⟩ := by
  have hstart : o.buffer.pos + HEADER_SIZE ≤ o.buffer.buffer.length := by
    rw [hidle.pos]
    omega
  have hlength := @started_length o record.header hstart
  obtain ⟨⟨b, t'⟩, hfill⟩ := @SentRecord.fill_of_finished _ P ks record
    (o.started record.header).buffer.buffer (o.buffer.pos + 5) (by rw [hlength]; exact hstart)
    o.transcript (by rw [hlength, hidle.pos]; simp only [HEADER_SIZE] at hroom; omega) hpanics
    (by rw [ht]; rfl) hkey
  have hfilled := @withBuffer_of_ok (o.started record.header) _ _ _ hfill
  obtain ⟨t₁, m, ht₁, hmessage, -, hheader, -, hinside, hsame, hcontent, htranscript⟩ :=
    fill_eq_ok hstart hfilled
  obtain rfl : t = t₁ := Option.some.inj (ht.symm.trans ht₁)
  refine ⟨m, _, hmessage, ⟨hheader, ?_, hinside⟩, hsame, ?_⟩
  · rw [hcontent, hidle.pos]
    rfl
  · rw [writeRecord_of_started hidle.currentHeader hstart, bind_of_ok hfilled, ← htranscript]

/-- A record that was written was started, filled and closed. -/
theorem RecordWriter.writeRecord_steps (h : writeRecord P ks record o = .ok out o') :
    ∃ o₁ o₂ w', onBuffer (WriteBuffer.startRecord record.header) o = .ok () o₁ ∧
      withBuffer (record.fill P ks) o₁ = .ok () o₂ ∧
      WriteBuffer.closeRecord P ks.state o₂.buffer = .ok out w' ∧ o' = { o₂ with buffer := w' } := by
  rw [writeRecord, get_bind_apply] at h
  split at h
  · cases h
  obtain ⟨_, o₁, hstart, h⟩ := bind_eq_ok.mp h
  obtain ⟨_, o₂, hfill, hclose⟩ := bind_eq_ok.mp h
  obtain ⟨w', hclosed, rfl⟩ := onPart_eq_ok.mp hclose
  exact ⟨o₁, o₂, w', hstart, hfill, hclosed, rfl⟩

/-- A record that was written: it was started where the buffer stood, filled with its message
and closed. -/
theorem RecordWriter.writeRecord_eq_ok (h : writeRecord P ks record o = .ok out o') :
    ∃ t m w w', o.transcript = some t ∧ record.message P ks t = .ok m ∧
      m.length = record.payload.length ∧ w.currentHeader = some record.header ∧
      w.pos = o.buffer.pos + 5 + m.length ∧ w.pos ≤ w.buffer.length ∧
      w.buffer.take w.pos =
        o.buffer.buffer.take o.buffer.pos ++ (record.header.bytes ++ ([0, 0] ++ m)) ∧
      WriteBuffer.closeRecord P ks.state w = .ok out w' ∧
      o' = ⟨w', some (t ++ record.transcribed m)⟩ := by
  obtain ⟨o₁, o₂, w', hstart, hfill, hclosed, rfl⟩ := writeRecord_steps h
  obtain ⟨w₁, hstarted, rfl⟩ := onPart_eq_ok.mp hstart
  obtain ⟨hroom, rfl⟩ := WriteBuffer.startRecord_eq_ok hstarted
  obtain ⟨t, m, ht, hmessage, hlen, hheader, hpos, hinside, -, hcontent, htranscript⟩ :=
    fill_eq_ok hroom hfill
  exact ⟨t, m, o₂.buffer, w', ht, hmessage, hlen, hheader, hpos, hinside, hcontent, hclosed,
    by rw [htranscript]⟩

end Written

/-- An alert leaves the transcript alone. -/
theorem SentRecord.keeps_fill_alert (P : Primitives cs) (ks : WriteKeySchedule cs) (a : Alert)
    (encrypted : Bool) : Keeps (Same Prod.snd) (fill P ks (.later (.alert a encrypted))) := by
  have hcrypto : ∀ op, Keeps (Same Prod.snd) (Filling.onCrypto op) := fun op =>
    Keeps.onPart (R := fun _ _ => True) (fun _ => trivial) fun _ _ _ => rfl
  have hfinish : Keeps (Same Prod.snd) (finish P ks (.later (.alert a encrypted))) := by
    rintro ⟨b, t⟩
    cases t <;> rfl
  exact Keeps.get.bind fun _ => (hcrypto _).bind fun _ => (hcrypto _).bind fun _ =>
    hfinish.bind fun _ => hcrypto _

theorem RecordWriter.keeps_writeRecord_alert (P : Primitives cs) (ks : WriteKeySchedule cs) (a : Alert)
    (encrypted : Bool) :
    Keeps (Same RecordWriter.transcript) (writeRecord P ks (.later (.alert a encrypted))) := by
  have hbuffer : ∀ {α : Type} (x : WriteBuffer.M α),
      Keeps (Same RecordWriter.transcript) (onBuffer x) :=
    fun x => Keeps.onPart (R := fun _ _ => True) (fun _ => trivial) fun _ _ _ => rfl
  have hfill : Keeps (Same RecordWriter.transcript)
      (withBuffer (SentRecord.fill P ks (.later (.alert a encrypted)))) := by
    intro o
    have hkept := SentRecord.keeps_fill_alert P ks a encrypted
      (.wrapWithPos o.buffer.buffer o.buffer.pos, o.transcript)
    rw [withBuffer]
    split
    next hrun =>
      rw [hrun] at hkept
      exact hkept
    next hrun =>
      rw [hrun] at hkept
      exact hkept
  refine Keeps.get.bind fun o => ?_
  split
  · exact .throw _
  · exact (hbuffer _).bind fun _ => hfill.bind fun _ => hbuffer _

namespace SentRecord

/-- The content type a record has to have on the wire. -/
def outerType : SentRecord cs → ContentType
  | clientHello _ false | later (.handshake _ false) => .handshake
  | later (.alert _ false) => .alert
  | _ => .applicationData

def contentType : SentRecord cs → ContentType
  | later (.alert _ _) => .alert
  | _ => .handshake

/-- One record with an exact length, which carries the message under its type; an alert that
is not protected is read back. -/
structure Framed (P : Primitives cs) (s : KeyScheduleState cs) (record : SentRecord cs)
    (message out : Bytes) : Prop where
  header : 5 ≤ out.length
  outerType : out.head? = some record.outerType.toU8
  length : fromBigEndian ((out.drop 3).take 2) = (out.drop 5).length
  plain : record.header.isEncrypted = false → out.drop 5 = message
  opens : record.header.isEncrypted →
    P.aeadOpen s.key (KeyScheduleState.nonce s.counter s.iv) (out.take 5) (out.drop 5) =
      some (message ++ [record.contentType.toU8])
  alert : ∀ a, record = later (.alert a false) → ∀ header : GenericArray 5,
    header.val = out.take 5 → ∃ h, RecordHeader.decode header = .ok h ∧
      ∀ t, ServerRecord.decode P h (out.drop 5) t = .ok (.alert a) t

end SentRecord

section Written

variable {P : Primitives cs} {ks : WriteKeySchedule cs} {record : SentRecord cs} {o o' : RecordWriter}
  {out : Bytes}

theorem SentRecord.trailerContentType_eq (record : SentRecord cs) :
    record.header.trailerContentType = record.contentType := by
  rcases record with ⟨hello, encrypted⟩ | ⟨message, encrypted⟩ | ⟨a, encrypted⟩ <;> rfl

theorem SentRecord.headerContentType_eq (record : SentRecord cs)
    (h : ∀ a, record ≠ .later (.alert a false)) :
    record.header.headerContentType = record.outerType := by
  rcases record with ⟨hello, _ | _⟩ | ⟨message, _ | _⟩ | ⟨a, _ | _⟩
  case later.alert.false => exact absurd rfl (h a)
  all_goals rfl

/-- The record a payload goes out in, or nothing when the AEAD refuses it. -/
def ClientRecordHeader.carry (P : Primitives cs) (s : KeyScheduleState cs)
    (header : ClientRecordHeader) (payload : Bytes) : Option Bytes :=
  if header.isEncrypted then sealedRecord P s (header.plaintext payload)
  else some (header.bytes ++ sized 2 payload)

/-- A record that was closed has left the buffer. -/
theorem WriteBuffer.closeRecord_record {w w' : WriteBuffer} {s : KeyScheduleState cs}
    {header : ClientRecordHeader} {m : Bytes} (hw : w.Holds header m)
    (h : closeRecord P s w = .ok out w') : header.carry P s m = some out ∧ w'.Idle := by
  cases henc : header.isEncrypted with
  | false =>
      obtain ⟨buffer, hclosed, -⟩ := closeRecord_plain (P := P) (s := s) hw henc
      rw [hclosed] at h
      cases h
      exact ⟨if_neg (Bool.eq_false_iff.mp henc), rfl, rfl⟩
  | true =>
      have hroom := (closeRecord_eq_ok hw.currentHeader h).2 henc
      cases hseal : sealedRecord P s (header.plaintext m) with
      | none =>
          obtain ⟨buffer, hclosed, -⟩ := closeRecord_of_none hw henc hroom hseal
          rw [hclosed] at h
          cases h
      | some sealed =>
          obtain ⟨buffer, hclosed, -⟩ := closeRecord_of_some hw henc hroom hseal
          rw [hclosed] at h
          cases h
          exact ⟨(if_pos henc).trans hseal, rfl, rfl⟩

/-- From an empty buffer a message goes out in a record of its own, and into the transcript. -/
theorem RecordWriter.writeRecord_record (hidle : o.buffer.Idle)
    (h : writeRecord P ks record o = .ok out o') :
    ∃ t m, o.transcript = some t ∧ record.message P ks t = .ok m ∧
      record.header.carry P ks.state m = some out ∧ o'.buffer.Idle ∧
      o'.transcript = some (t ++ record.transcribed m) := by
  obtain ⟨t, m, w, w', ht, hmessage, -, hheader, -, hinside, hcontent, hclose, rfl⟩ :=
    writeRecord_eq_ok h
  have hheld : w.Holds record.header m := ⟨hheader, by rw [hcontent, hidle.pos]; rfl, hinside⟩
  obtain ⟨hout, hempty⟩ := WriteBuffer.closeRecord_record hheld hclose
  exact ⟨t, m, ht, hmessage, hout, hempty, rfl⟩

/-- In an empty buffer the record is all there is: the header, and the message or what it is
sealed to. -/
theorem WriteBuffer.closed_record {w w' : WriteBuffer} {m : Bytes}
    (hw : w.Holds record.header m) (h : closeRecord P ks.state w = .ok out w') :
    ∃ body, out = record.header.bytes ++ sized 2 body ∧
      (record.header.isEncrypted = false → body = m) ∧
      (record.header.isEncrypted → P.aeadSeal ks.state.key
        (KeyScheduleState.nonce ks.state.counter ks.state.iv)
        (record.header.bytes ++ bigEndian 2 body.length) (m ++ [record.contentType.toU8]) =
          some body) := by
  have hrecord := (closeRecord_record hw h).1
  cases henc : record.header.isEncrypted with
  | false =>
      rw [ClientRecordHeader.carry, if_neg (Bool.eq_false_iff.mp henc)] at hrecord
      cases hrecord
      exact ⟨m, rfl, fun _ => rfl, fun h => absurd h Bool.false_ne_true⟩
  | true =>
      rw [ClientRecordHeader.carry, if_pos henc] at hrecord
      obtain ⟨body, hbody, rfl⟩ := Option.map_eq_some_iff.mp hrecord
      have hlen := P.aeadSeal_length hbody
      have hhead : record.header.bytes ++ bigEndian 2 body.length =
          additionalData ((record.header.plaintext m).length + cs.tagSize) := by
        rw [hlen, record.header.bytes_of_isEncrypted henc, additionalData]
      refine ⟨body, ?_, fun h => absurd h.symm Bool.false_ne_true, fun _ => ?_⟩
      · rw [sized, ← List.append_assoc, hhead]
      · rw [hhead, ← record.trailerContentType_eq]
        exact hbody

/-- A record that was written is framed as it should be, exactly when nothing was left in the
buffer, it is not an unprotected alert and its length fits the length field. -/
theorem RecordWriter.framed_iff (hP : P.AeadCorrect) (h : writeRecord P ks record o = .ok out o') :
    (∃ t m, o.transcript = some t ∧ record.message P ks t = .ok m ∧
      record.Framed P ks.state m out) ↔
    (o.buffer.pos = 0 ∧ (∀ a, record ≠ .later (.alert a false)) ∧
      record.payload.length + (if record.header.isEncrypted then 1 + cs.tagSize else 0) ≤ 65535) := by
  obtain ⟨t, m, w, w', ht, hmessage, hlen, hheader, hpos, hinside, hcontent, hclose, -⟩ :=
    writeRecord_eq_ok h
  obtain ⟨hout, hroom⟩ := WriteBuffer.closeRecord_eq_ok hheader hclose
  constructor
  · rintro ⟨t', m', ht', hmessage', hframed⟩
    obtain rfl : t = t' := Option.some.inj (ht.symm.trans ht')
    obtain rfl : m = m' := Except.ok.inj (hmessage.symm.trans hmessage')
    have hbody : (out.drop 5).length =
        m.length + (if record.header.isEncrypted then 1 + cs.tagSize else 0) := by
      cases henc : record.header.isEncrypted with
      | false => rw [hframed.plain henc, if_neg Bool.false_ne_true, Nat.add_zero]
      | true =>
          rw [P.aeadOpen_length (hframed.opens henc), if_pos rfl, List.length_append,
            List.length_singleton, Nat.add_assoc]
    have hfits : (out.drop 5).length < 256 ^ 2 := by
      rw [← hframed.length]
      have := fromBigEndian_lt ((out.drop 3).take 2)
      refine Nat.lt_of_lt_of_le this (Nat.pow_le_pow_right (by decide) ?_)
      exact List.length_take_le _ _
    have hzero : o.buffer.pos = 0 := by
      rw [List.length_drop] at hbody
      omega
    refine ⟨hzero, ?_, by omega⟩
    rintro a rfl
    -- the header says ChangeCipherSpec
    have hheld : w.Holds (ClientRecordHeader.alert false) m :=
      ⟨hheader, by rw [hcontent, hzero]; rfl, hinside⟩
    obtain ⟨body, rfl, -⟩ :=
      @WriteBuffer.closed_record _ _ _ (.later (.alert a false)) _ _ _ _ hheld hclose
    cases hframed.outerType
  · rintro ⟨hzero, halert, hfits⟩
    have hheld : w.Holds record.header m := ⟨hheader, by rw [hcontent, hzero]; rfl, hinside⟩
    obtain ⟨body, rfl, hplain, hsealed⟩ := WriteBuffer.closed_record hheld hclose
    have hfive : (record.header.bytes ++ bigEndian 2 body.length).length = 5 := by
      rw [List.length_append, record.header.bytes_length, bigEndian_length]
    have hsplit : record.header.bytes ++ sized 2 body =
        record.header.bytes ++ bigEndian 2 body.length ++ body := by
      rw [sized, List.append_assoc]
    have htake : (record.header.bytes ++ sized 2 body).take 5 =
        record.header.bytes ++ bigEndian 2 body.length := by rw [hsplit, List.take_left' hfive]
    have hdrop : (record.header.bytes ++ sized 2 body).drop 5 = body := by
      rw [hsplit, List.drop_left' hfive]
    have hbody : body.length < 256 ^ 2 := by
      rw [← hdrop, List.length_drop]
      omega
    refine ⟨t, m, ht, hmessage, ?_, ?_, ?_, ?_, ?_, ?_⟩
    · rw [hsplit, List.length_append, hfive]
      omega
    · rw [← record.headerContentType_eq halert]
      rfl
    · rw [hdrop, List.drop_left' record.header.bytes_length, sized,
        List.take_left' (bigEndian_length _ _), fromBigEndian_bigEndian, Nat.mod_eq_of_lt hbody]
    · intro henc
      rw [hdrop, hplain henc]
    · intro henc
      rw [htake, hdrop]
      exact hP.opens (hsealed henc)
    · intro a ha
      exact absurd ha (halert a)

/-- An empty write buffer at the start of a handshake. -/
def RecordWriter.fresh (size : Nat) : RecordWriter := ⟨⟨List.replicate size 0, 0, none⟩, some []⟩

/-- A close_notify that is not protected is sent as a ChangeCipherSpec. -/
theorem RecordWriter.closeNotify_misframed :
    let P := Primitives.checksumming .aes128GcmSha256
    let ks : WriteKeySchedule .aes128GcmSha256 := ⟨.new, .uninitialized⟩
    let record : SentRecord .aes128GcmSha256 := .later (.closeNotify false)
    ∃ out o', writeRecord P ks record (fresh 256) = .ok out o' ∧
      out = [20, 3, 1, 0, 2, 1, 0] ∧
      ¬∃ t m, (fresh 256).transcript = some t ∧ record.message P ks t = .ok m ∧
        record.Framed P ks.state m out := by
  intro P ks record
  have hrun : outcome (writeRecord P ks record (fresh 256)) = .ok [20, 3, 1, 0, 2, 1, 0] := by
    decide +kernel
  refine ⟨_, _, outcome_eq_ok hrun, rfl, ?_⟩
  rintro ⟨t, m, -, -, hframed⟩
  cases hframed.outerType

theorem RecordWriter.finished_framed :
    let P := Primitives.checksumming .aes128GcmSha256
    let ks : WriteKeySchedule .aes128GcmSha256 := ⟨.new, .uninitialized⟩
    let record : SentRecord .aes128GcmSha256 := .later (.handshake (.finished ⟨.zeros _, none⟩) true)
    ∃ out o', writeRecord P ks record (fresh 256) = .ok out o' ∧
      ∃ t m, (fresh 256).transcript = some t ∧ record.message P ks t = .ok m ∧
        record.Framed P ks.state m out := by
  intro P ks record
  have hok : (outcome (writeRecord P ks record (fresh 256))).isOk := by decide +kernel
  cases hrun : writeRecord P ks record (fresh 256) with
  | error e o' =>
      rw [hrun] at hok
      cases hok
  | ok out o' =>
      refine ⟨out, o', rfl, (framed_iff (Primitives.checksumming_aeadCorrect _) hrun).mpr ?_⟩
      exact ⟨rfl, fun a => by simp [record], by decide⟩

end Written

end GatoPskTls
