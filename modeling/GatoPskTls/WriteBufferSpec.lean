import GatoPskTls.WriteBuffer

/-!
# What the write buffer holds

A buffer that holds a record has its header and the payload so far at its front. Closing the
record gives the header with its length filled in and, when the record is protected, the
sealed payload.
-/
namespace GatoPskTls

open Stateful BigEndian Splice

variable {cs : TlsCipherSuite}

/-- Content type and version. -/
def ClientRecordHeader.bytes (header : ClientRecordHeader) : Bytes :=
  header.headerContentType.toU8 :: header.version

theorem ClientRecordHeader.bytes_length (header : ClientRecordHeader) : header.bytes.length = 3 := by
  rcases header with (_ | _) | (_ | _) | _ <;> rfl

theorem ClientRecordHeader.bytes_of_isEncrypted {header : ClientRecordHeader}
    (h : header.isEncrypted) : header.bytes = [ContentType.applicationData.toU8, 0x03, 0x03] := by
  rcases header with (_ | _) | (_ | _) | _ <;> first | rfl | cases h

theorem ClientRecordHeader.appends_encode (header : ClientRecordHeader) :
    CryptoBuffer.Appends header.encode header.bytes :=
  ((CryptoBuffer.appends_push _).mapError _).bind
    ((CryptoBuffer.appends_extendFromSlice _).mapError _)

theorem CryptoBuffer.offsetTo_eq {b : CryptoBuffer} {offset : Nat} (h : offset ≤ b.len + b.offset) :
    offsetTo offset b = .ok () (b.moveTo offset) := by
  simp only [offsetTo, get_bind_apply, if_neg (Nat.not_lt.mpr h), set_apply]

/-- The content of a protected record: the payload, and behind it its type. -/
def ClientRecordHeader.plaintext (header : ClientRecordHeader) (payload : Bytes) : Bytes :=
  payload ++ [header.trailerContentType.toU8]

/-- The record a payload is sent in, or nothing when the AEAD refuses it. -/
def sealedRecord (P : Primitives cs) (s : KeyScheduleState cs) (plaintext : Bytes) : Option Bytes :=
  let aad := additionalData (plaintext.length + cs.tagSize)
  (P.aeadSeal s.key (KeyScheduleState.nonce s.counter s.iv) aad plaintext).map (aad ++ ·)

namespace WriteBuffer

/-- There is no record in the buffer. -/
structure Idle (w : WriteBuffer) : Prop where
  pos : w.pos = 0
  currentHeader : w.currentHeader = none

/-- The buffer holds the header and the payload of a record. -/
structure Holds (w : WriteBuffer) (header : ClientRecordHeader) (payload : Bytes) : Prop where
  currentHeader : w.currentHeader = some header
  content : w.buffer.take w.pos = header.bytes ++ ([0, 0] ++ payload)
  pos_le : w.pos ≤ w.buffer.length

variable {w : WriteBuffer} {header : ClientRecordHeader} {payload : Bytes}

theorem Holds.pos_eq (h : w.Holds header payload) : w.pos = HEADER_SIZE + payload.length := by
  have hlen := congrArg List.length h.content
  rw [List.length_take, Nat.min_eq_left h.pos_le] at hlen
  simp only [List.length_append, header.bytes_length, List.length_cons, List.length_nil] at hlen
  simp only [HEADER_SIZE]
  omega

theorem Holds.drop_header (h : w.Holds header payload) :
    (w.buffer.take w.pos).drop HEADER_SIZE = payload := by
  have hhead : (header.bytes ++ [0, 0]).length = HEADER_SIZE := by
    rw [List.length_append, header.bytes_length]
    rfl
  rw [h.content, ← List.append_assoc, List.drop_left' hhead]

/-- The front of the buffer, as the operations on records see it. -/
def crypto (w : WriteBuffer) : CryptoBuffer := .wrapWithPos w.buffer w.pos

theorem crypto_wf (h : w.pos ≤ w.buffer.length) : w.crypto.WF := by
  simpa [crypto, CryptoBuffer.WF, CryptoBuffer.wrapWithPos] using h

theorem withBuffer_of_ok {op : CryptoBuffer.Op} {b : CryptoBuffer} (h : op w.crypto = .ok () b) :
    withBuffer op w = .ok () { w with buffer := b.buf, pos := b.len } := by
  simp only [withBuffer, show CryptoBuffer.wrapWithPos w.buffer w.pos = w.crypto from rfl, h]

theorem withBuffer_of_error {op : CryptoBuffer.Op} {b : CryptoBuffer} {e : Stop}
    (h : op w.crypto = .error e b) : withBuffer op w = .error e { w with buffer := b.buf } := by
  simp only [withBuffer, show CryptoBuffer.wrapWithPos w.buffer w.pos = w.crypto from rfl, h]

/-- What has been written behind the front of the buffer. -/
theorem Holds.appended (h : w.Holds header payload) {more : Bytes}
    (hroom : w.pos + more.length ≤ w.buffer.length) :
    Holds { w with buffer := (w.crypto.appended more).buf, pos := (w.crypto.appended more).len } header
      (payload ++ more) where
  currentHeader := h.currentHeader
  content := by
    have hslice := @CryptoBuffer.appended_asSlice w.crypto more (crypto_wf h.pos_le)
    simp only [CryptoBuffer.asSlice, crypto, CryptoBuffer.wrapWithPos, CryptoBuffer.appended,
      List.drop_zero, h.content] at hslice
    simpa only [crypto, CryptoBuffer.wrapWithPos, CryptoBuffer.appended, List.append_assoc] using hslice
  pos_le := by
    have hwf := CryptoBuffer.appended_wf (crypto_wf h.pos_le) (w := more)
      (by simp only [CryptoBuffer.space, crypto, CryptoBuffer.wrapWithPos, CryptoBuffer.capacity]; omega)
    simpa [CryptoBuffer.WF, CryptoBuffer.appended, crypto, CryptoBuffer.wrapWithPos] using hwf

/-- A record is started wherever there is room for its header. -/
theorem startRecord_of_room (hnone : w.currentHeader = none)
    (hroom : w.pos + HEADER_SIZE ≤ w.buffer.length) :
    startRecord header w =
      .ok () ⟨splice w.buffer w.pos (header.bytes ++ [0, 0]), w.pos + 5, some header⟩ := by
  let w₁ : WriteBuffer := { w with currentHeader := some header }
  have hwf : w₁.crypto.WF := crypto_wf (Nat.le_trans (Nat.le_add_right _ _) hroom)
  have hfits : (header.bytes ++ bigEndian 2 0).length ≤ w₁.crypto.space := by
    simp only [List.length_append, header.bytes_length, bigEndian_length, CryptoBuffer.space,
      CryptoBuffer.capacity, crypto, CryptoBuffer.wrapWithPos, w₁]
    simp only [HEADER_SIZE] at hroom
    omega
  have hencode : mapError Stop.err header.encode w₁.crypto =
      .ok () (w₁.crypto.appended header.bytes) :=
    (header.appends_encode.mapError _).ok hwf (by rw [List.length_append] at hfits; simp; omega)
  have hpush : mapError Stop.err (CryptoBuffer.pushU16 0) (w₁.crypto.appended header.bytes) =
      .ok () (w₁.crypto.appended (header.bytes ++ bigEndian 2 0)) :=
    ((CryptoBuffer.appends_extendFromSlice _).mapError _).ok_put hwf hfits
  simp only [startRecord, get_bind_apply, hnone, Option.isSome_none, Bool.false_eq_true,
    if_false, set_bind_apply]
  refine (withBuffer_of_ok (w := w₁) ((bind_of_ok hencode).trans ((bind_of_ok hpush).trans
    (CryptoBuffer.offsetTo_eq (Nat.zero_le _))))).trans ?_
  simp [CryptoBuffer.moveTo, CryptoBuffer.appended, crypto, CryptoBuffer.wrapWithPos,
    header.bytes_length, bigEndian, w₁]

theorem startRecord_of_idle (hw : w.Idle) (hroom : HEADER_SIZE ≤ w.buffer.length) :
    ∃ w', startRecord header w = .ok () w' ∧ w'.Holds header [] ∧
      w'.buffer.length = w.buffer.length := by
  have hbytes : (header.bytes ++ [0, 0]).length = 5 := by
    rw [List.length_append, header.bytes_length]
    rfl
  have hlen : (splice w.buffer w.pos (header.bytes ++ [0, 0])).length = w.buffer.length :=
    splice_length (by rw [hw.pos, hbytes, Nat.zero_add]; exact hroom)
  refine ⟨_, startRecord_of_room hw.currentHeader (by rw [hw.pos, Nat.zero_add]; exact hroom),
    ⟨rfl, ?_, ?_⟩, hlen⟩
  · have htake := @take_splice_end _ w.buffer w.pos (header.bytes ++ [0, 0])
      (by rw [hw.pos]; exact Nat.zero_le _)
    rw [hbytes, hw.pos] at htake
    simpa [hw.pos] using htake
  · rw [hlen, hw.pos, Nat.zero_add]
    exact hroom

variable {P : Primitives cs} {s : KeyScheduleState cs}

/-- The length is filled in behind the front of the header. -/
theorem finishRecord_eq {front zeros back : Bytes} (hfront : front.length = 3)
    (hzeros : zeros.length = 2) (hpos : w.pos ≤ w.buffer.length)
    (hcontent : w.buffer.take w.pos = front ++ (zeros ++ back)) :
    ∃ buffer, finishRecord w = .ok (front ++ sized 2 back) ⟨buffer, 0, none⟩ ∧
      buffer.length = w.buffer.length := by
  have hsize : w.pos = 5 + back.length := by
    have := congrArg List.length hcontent
    rw [List.length_take, Nat.min_eq_left hpos] at this
    simp only [List.length_append, hfront, hzeros] at this
    omega
  have hsplit : w.buffer = front ++ zeros ++ (back ++ w.buffer.drop w.pos) := by
    conv_lhs => rw [← List.take_append_drop w.pos w.buffer, hcontent]
    simp only [List.append_assoc]
  have hsplice : splice w.buffer 3 (bigEndian 2 (w.pos - HEADER_SIZE)) =
      front ++ sized 2 back ++ w.buffer.drop w.pos := by
    rw [hsize, HEADER_SIZE, Nat.add_sub_cancel_left, ← hfront, ← hsize]
    conv_lhs => rw [hsplit]
    rw [splice_append (by rw [bigEndian_length, hzeros])]
    simp only [sized, List.append_assoc]
  refine ⟨splice w.buffer 3 (bigEndian 2 (w.pos - HEADER_SIZE)), ?_, splice_length ?_⟩
  · have hinside : ¬(w.pos < HEADER_SIZE ∨ w.buffer.length < w.pos) := by
      simp only [HEADER_SIZE]
      omega
    simp only [finishRecord, get_bind_apply, if_neg hinside, set_bind_apply, pure_apply]
    rw [hsplice, List.take_left' (by simp [hfront]; omega)]
  · rw [bigEndian_length]
    omega

/-- The last step of closing: what was sealed is finished. -/
theorem finishRecord_eq_ok {out : Bytes} {w' : WriteBuffer} (h : finishRecord w = .ok out w') :
    HEADER_SIZE ≤ w.pos ∧ w.pos ≤ w.buffer.length ∧
      out = (splice w.buffer 3 (bigEndian 2 (w.pos - HEADER_SIZE))).take w.pos := by
  simp only [finishRecord, get_bind_apply] at h
  split at h
  · cases h
  next hinside =>
    cases h
    exact ⟨by omega, by omega, rfl⟩

theorem encrypt_eq {b : CryptoBuffer} (hb : b.WF) (hspace : cs.tagSize ≤ b.space) :
    encrypt P s b =
      match P.aeadSeal s.key (KeyScheduleState.nonce s.counter s.iv)
        (additionalData (b.asSlice.length + cs.tagSize)) b.asSlice with
      | some ciphertext =>
          .ok () { b with buf := splice b.buf b.offset ciphertext, len := ciphertext.length }
      | none => .error (.err .invalidApplicationData) b := by
  have hfits : ¬b.len + cs.tagSize > b.capacity := by
    simp only [CryptoBuffer.WF, CryptoBuffer.space, CryptoBuffer.capacity] at *
    omega
  simp only [encrypt, KeyScheduleState.getKey, KeyScheduleState.getNonce, mapError_ok_eq,
    fromResult_ok_bind, get_bind_apply, if_neg hfits, CryptoBuffer.asSlice_length hb]
  cases hseal : P.aeadSeal s.key (KeyScheduleState.nonce s.counter s.iv)
      (additionalData (b.len + cs.tagSize)) b.asSlice with
  | some ciphertext =>
      have hlen := P.aeadSeal_length hseal
      rw [CryptoBuffer.asSlice_length hb] at hlen
      rw [mapError_of_ok (CryptoBuffer.encryptInPlace_of_some hb hspace hseal)]
      simp only [hlen]
  | none => rw [mapError_of_error (CryptoBuffer.encryptInPlace_of_none hseal)]

section Sealing

variable (hfive : HEADER_SIZE ≤ w.pos) (henc : header.isEncrypted)
include hfive henc

/-- With room for the content type, it goes behind the bytes, and the window moves behind the
header. -/
theorem sealRecord_window (hroom : w.pos + 1 ≤ w.buffer.length) :
    ∃ b : CryptoBuffer, b.WF ∧ b.offset = HEADER_SIZE ∧ b.buf.length = w.buffer.length ∧
      b.space = w.buffer.length - (w.pos + 1) ∧
      b.buf.take (w.pos + 1) = w.buffer.take w.pos ++ [header.trailerContentType.toU8] ∧
      b.asSlice = header.plaintext ((w.buffer.take w.pos).drop HEADER_SIZE) ∧
      sealRecord P s header w.crypto = (encrypt P s >>= fun _ => CryptoBuffer.offsetTo 0) b := by
  have hwf : w.crypto.WF := crypto_wf (Nat.le_of_succ_le hroom)
  have hmore : [header.trailerContentType.toU8].length ≤ w.crypto.space := by
    simp only [List.length_singleton, CryptoBuffer.space, crypto, CryptoBuffer.wrapWithPos,
      CryptoBuffer.capacity]
    omega
  let b := w.crypto.appended [header.trailerContentType.toU8]
  have hpush : mapError Stop.err (orEncodeError (CryptoBuffer.push header.trailerContentType.toU8))
      w.crypto = .ok () b :=
    (((CryptoBuffer.appends_push _).mapError _).mapError _).ok hwf hmore
  have hlen : b.buf.length = w.buffer.length := splice_length (by
    simp only [crypto, CryptoBuffer.wrapWithPos, List.length_singleton]
    omega)
  have hblen : b.len = w.pos + 1 := rfl
  have hboffset : b.offset = 0 := rfl
  have hcontent : b.buf.take b.len = w.buffer.take w.pos ++ [header.trailerContentType.toU8] := by
    have hslice := @CryptoBuffer.appended_asSlice w.crypto [header.trailerContentType.toU8] hwf
    simpa [b, CryptoBuffer.asSlice, crypto, CryptoBuffer.wrapWithPos, CryptoBuffer.appended]
      using hslice
  refine ⟨b.moveTo HEADER_SIZE, ?_, rfl, hlen, ?_, hcontent, ?_, ?_⟩
  · simp only [CryptoBuffer.WF, CryptoBuffer.moveTo, hlen, hblen, hboffset]
    omega
  · simp only [CryptoBuffer.space, CryptoBuffer.capacity, CryptoBuffer.moveTo, hlen, hblen, hboffset]
    omega
  · have hdrop := congrArg (List.drop HEADER_SIZE) hcontent
    rw [List.drop_append_of_le_length (by rw [List.length_take]; omega), List.drop_take] at hdrop
    simpa only [CryptoBuffer.asSlice, CryptoBuffer.moveTo, hboffset, Nat.add_zero,
      ClientRecordHeader.plaintext] using hdrop
  · rw [sealRecord, henc, Bool.not_true, if_neg Bool.false_ne_true, bind_of_ok hpush, bind_of_ok]
    exact CryptoBuffer.offsetTo_eq (by rw [hblen]; omega)

/-- With room for it, a record the AEAD refuses is left behind without its header. -/
theorem closeRecord_of_refused (hheader : w.currentHeader = some header)
    (hroom : w.pos + 1 + cs.tagSize ≤ w.buffer.length)
    (hrefused : sealedRecord P s (header.plaintext ((w.buffer.take w.pos).drop HEADER_SIZE)) = none) :
    ∃ buffer, closeRecord P s w = .error (.err .invalidApplicationData) ⟨buffer, w.pos, none⟩ ∧
      buffer.length = w.buffer.length := by
  obtain ⟨b, hwf, -, hlen, hspace, -, hslice, hstep⟩ :=
    @sealRecord_window cs w header P s hfive henc (by omega)
  have hencrypt : encrypt P s b = .error (.err .invalidApplicationData) b := by
    rw [encrypt_eq hwf (by omega), hslice, Option.map_eq_none_iff.mp hrefused]
  rw [bind_of_error hencrypt] at hstep
  refine ⟨b.buf, ?_, hlen⟩
  simp only [closeRecord, get_bind_apply, hheader, set_bind_apply]
  exact bind_of_error (withBuffer_of_error (w := { w with currentHeader := none }) hstep)

end Sealing

section Close

variable (hw : w.Holds header payload) (henc : header.isEncrypted)
  (hroom : w.pos + 1 + cs.tagSize ≤ w.buffer.length)
include hw henc hroom

/-- The window of a record with its payload. -/
theorem sealRecord_step :
    ∃ b : CryptoBuffer, b.buf.length = w.buffer.length ∧ b.buf.take 5 = header.bytes ++ [0, 0] ∧
      b.offset = 5 ∧ b.WF ∧ cs.tagSize ≤ b.space ∧ b.asSlice = header.plaintext payload ∧
      sealRecord P s header w.crypto = (encrypt P s >>= fun _ => CryptoBuffer.offsetTo 0) b := by
  have hfive : HEADER_SIZE ≤ w.pos := by
    rw [hw.pos_eq]
    omega
  obtain ⟨b, hwf, hoffset, hlen, hspace, hcontent, hslice, hstep⟩ :=
    @sealRecord_window cs w header P s hfive henc (by omega)
  rw [hw.drop_header] at hslice
  refine ⟨b, hlen, ?_, hoffset, hwf, by omega, hslice, hstep⟩
  have hhead : (header.bytes ++ [0, 0]).length = 5 := by
    rw [List.length_append, header.bytes_length]
    rfl
  have htake := congrArg (List.take 5) hcontent
  simp only [HEADER_SIZE] at hfive
  rwa [List.take_take, Nat.min_eq_left (by omega), hw.content, ← List.append_assoc,
    List.append_assoc (header.bytes ++ [0, 0]), List.take_left' hhead] at htake

theorem closeRecord_of_some {record : Bytes}
    (hseal : sealedRecord P s (header.plaintext payload) = some record) :
    ∃ buffer, closeRecord P s w = .ok record ⟨buffer, 0, none⟩ ∧
      buffer.length = w.buffer.length := by
  obtain ⟨ciphertext, hsealed, rfl⟩ := Option.map_eq_some_iff.mp hseal
  obtain ⟨b, hlen, hhead, hoffset, hwf, hspace, hslice, hstep⟩ :=
    sealRecord_step (P := P) (s := s) hw henc hroom
  have hct := P.aeadSeal_length hsealed
  have hfits : 5 + ciphertext.length ≤ b.buf.length := by
    rw [← hslice, CryptoBuffer.asSlice_length hwf] at hct
    simp only [CryptoBuffer.WF, CryptoBuffer.space, CryptoBuffer.capacity] at hwf hspace
    omega
  have hencrypt : encrypt P s b =
      .ok () { b with buf := splice b.buf 5 ciphertext, len := ciphertext.length } := by
    rw [encrypt_eq hwf hspace, hslice, hsealed, hoffset]
  rw [bind_of_ok hencrypt, CryptoBuffer.offsetTo_eq (Nat.zero_le _)] at hstep
  have hsealing := withBuffer_of_ok (w := { w with currentHeader := none }) hstep
  have hspliced : (splice b.buf 5 ciphertext).length = w.buffer.length :=
    (splice_length hfits).trans hlen
  have hcontent : (splice b.buf 5 ciphertext).take (5 + ciphertext.length) =
      header.bytes ++ ([0, 0] ++ ciphertext) := by
    rw [take_splice_end (by omega), hhead, List.append_assoc]
  obtain ⟨buffer, hfinish, hbuffer⟩ := finishRecord_eq
    (w := ⟨splice b.buf 5 ciphertext, 5 + ciphertext.length, none⟩) header.bytes_length rfl
    (by rw [hspliced, ← hlen]; exact hfits) hcontent
  refine ⟨buffer, ?_, hbuffer.trans hspliced⟩
  have hrecord : additionalData ((header.plaintext payload).length + cs.tagSize) ++ ciphertext =
      header.bytes ++ sized 2 ciphertext := by
    rw [← hct, header.bytes_of_isEncrypted henc, additionalData, sized, List.append_assoc]
  rw [hrecord, ← hfinish]
  simp only [closeRecord, get_bind_apply, hw.currentHeader, set_bind_apply]
  rw [bind_of_ok hsealing]
  simp only [CryptoBuffer.moveTo, hoffset, Nat.sub_zero, Nat.add_comm ciphertext.length 5]

theorem closeRecord_of_none (hseal : sealedRecord P s (header.plaintext payload) = none) :
    ∃ buffer, closeRecord P s w = .error (.err .invalidApplicationData) ⟨buffer, w.pos, none⟩ ∧
      buffer.length = w.buffer.length := by
  have hfive : HEADER_SIZE ≤ w.pos := by
    rw [hw.pos_eq]
    omega
  exact closeRecord_of_refused hfive henc hw.currentHeader hroom (by rwa [hw.drop_header])

end Close

/-- An unprotected record goes out as it stands. -/
theorem closeRecord_plain (hw : w.Holds header payload) (hplain : header.isEncrypted = false) :
    ∃ buffer, closeRecord P s w = .ok (header.bytes ++ sized 2 payload) ⟨buffer, 0, none⟩ ∧
      buffer.length = w.buffer.length := by
  have hseal : sealRecord P s header w.crypto = .ok () w.crypto := by
    rw [sealRecord, hplain, Bool.not_false, if_pos rfl, pure_apply]
  have hsealing := withBuffer_of_ok (w := { w with currentHeader := none }) hseal
  obtain ⟨buffer, hfinish, hbuffer⟩ := finishRecord_eq (w := { w with currentHeader := none })
    header.bytes_length rfl hw.pos_le hw.content
  refine ⟨buffer, ?_, hbuffer⟩
  simp only [closeRecord, get_bind_apply, hw.currentHeader, set_bind_apply]
  rw [bind_of_ok hsealing, ← hfinish]
  rfl

/-- As much as fits goes behind the payload. -/
theorem append_eq (hw : w.Holds header payload) (hlen : TLS_RECORD_OVERHEAD ≤ w.buffer.length)
    (hpos : w.pos ≤ w.buffer.length - TLS_RECORD_OVERHEAD) (buf : Bytes) :
    ∃ w', append buf w =
        .ok (min buf.length (w.buffer.length - TLS_RECORD_OVERHEAD - w.pos)) w' ∧
      w'.Holds header
        (payload ++ buf.take (min buf.length (w.buffer.length - TLS_RECORD_OVERHEAD - w.pos))) ∧
      w'.buffer.length = w.buffer.length := by
  have hspace : w.space = .ok (w.buffer.length - TLS_RECORD_OVERHEAD - w.pos) := by
    simp only [space, maxBlockSize, checkedSub, if_pos hlen, ok_bind, if_pos hpos]
  generalize hn : min buf.length (w.buffer.length - TLS_RECORD_OVERHEAD - w.pos) = n
  have htake : (buf.take n).length = n := by
    rw [List.length_take]
    omega
  refine ⟨_, ?_, hw.appended (by rw [htake]; omega), ?_⟩
  · simp only [append, get_bind_apply, hspace, fromResult_ok_bind, set_bind_apply, pure_apply, hn]
    simp [crypto, CryptoBuffer.appended, CryptoBuffer.wrapWithPos, htake]
  · simp only [crypto, CryptoBuffer.appended, CryptoBuffer.wrapWithPos, Nat.zero_add]
    exact splice_length (by rw [htake]; omega)

end WriteBuffer

theorem Alert.appends_encode (a : Alert) :
    CryptoBuffer.Appends a.encode [a.level.toU8, a.description.toU8] :=
  ((CryptoBuffer.appends_push _).mapError _).bind ((CryptoBuffer.appends_push _).mapError _)

end GatoPskTls
