import GatoPskTls.SentRecord
import GatoPskTls.Rfc8446
import GatoPskTls.Client.Sending

/-!
# Records that could not be written

`write_record` opens a record before it knows whether the record fits. A failure leaves the
record open or its bytes behind, so the buffer is empty again only if nothing failed.
-/
namespace GatoPskTls

open Stateful BigEndian CryptoBuffer Splice

variable {cs : TlsCipherSuite}

/-- An encoder without room fails with an error and not with a panic. -/
theorem CryptoBuffer.Appends.err_of_full {m : CryptoBuffer.M Unit} {w : Bytes} (h : Appends m w)
    {b : CryptoBuffer} (hb : b.WF) (hfull : b.space < w.length) :
    ∃ e b', mapError Stop.err m b = .error (.err e) b' := by
  obtain ⟨e, b', hm⟩ := h.full hb hfull
  exact ⟨e, b', mapError_of_error hm⟩

namespace WriteBuffer

variable {w w' : WriteBuffer} {header : ClientRecordHeader}

theorem startRecord_op_of_full (header : ClientRecordHeader)
    (hroom : ¬w.pos + HEADER_SIZE ≤ w.buffer.length) :
    ∃ e b, (do
        mapError .err header.encode
        mapError .err (CryptoBuffer.pushU16 0)
        CryptoBuffer.offsetTo 0 : CryptoBuffer.Op) w.crypto = .error (.err e) b := by
  simp only [HEADER_SIZE] at hroom
  have hspace : w.crypto.space = w.buffer.length - w.pos := by
    simp [crypto, CryptoBuffer.space, CryptoBuffer.capacity, CryptoBuffer.wrapWithPos]
  by_cases hwf : w.crypto.WF
  · by_cases hbytes : header.bytes.length ≤ w.crypto.space
    · have hencode := (header.appends_encode.mapError Stop.err).ok hwf hbytes
      have hless : (w.crypto.appended header.bytes).space < (bigEndian 2 0).length := by
        rw [CryptoBuffer.appended_space hwf hbytes, header.bytes_length, bigEndian_length]
        omega
      obtain ⟨e, b, hpush⟩ := CryptoBuffer.Appends.err_of_full
        (CryptoBuffer.appends_extendFromSlice (bigEndian 2 0))
        (CryptoBuffer.appended_wf hwf hbytes) hless
      refine ⟨e, b, ?_⟩
      rw [bind_of_ok hencode]
      exact bind_of_error hpush
    · obtain ⟨e, b, hencode⟩ := header.appends_encode.err_of_full hwf (Nat.not_le.mp hbytes)
      exact ⟨e, b, bind_of_error hencode⟩
  · -- a position behind the end leaves no room for the first byte
    have hnone : ¬w.crypto.space > 0 := by
      simp only [CryptoBuffer.WF, crypto, CryptoBuffer.wrapWithPos] at hwf
      omega
    have hpush : CryptoBuffer.push header.headerContentType.toU8 w.crypto =
        .error .insufficientSpace w.crypto := by rw [CryptoBuffer.push, if_neg hnone]
    have hencode : header.encode w.crypto = .error .encodeError w.crypto :=
      bind_of_error (mapError_of_error hpush)
    exact ⟨_, _, bind_of_error (mapError_of_error hencode)⟩

/-- The header is already set when there is no room to write it. -/
theorem startRecord_of_full (hnone : w.currentHeader = none)
    (hroom : ¬w.pos + HEADER_SIZE ≤ w.buffer.length) :
    ∃ e w', startRecord header w = .error (.err e) w' ∧ w'.currentHeader = some header := by
  let w₁ : WriteBuffer := { w with currentHeader := some header }
  obtain ⟨e, b, hop⟩ := @startRecord_op_of_full w₁ header hroom
  refine ⟨e, { w₁ with buffer := b.buf }, ?_, rfl⟩
  simp only [startRecord, get_bind_apply, hnone, Option.isSome_none, Bool.false_eq_true, if_false,
    set_bind_apply]
  exact withBuffer_of_error hop

variable {P : Primitives cs} {s : KeyScheduleState cs}

/-- What a protected record is sealed over: all the bytes behind the first header, and the
content type. -/
def plaintext (w : WriteBuffer) (header : ClientRecordHeader) : Bytes :=
  (w.buffer.take w.pos).drop HEADER_SIZE ++ [header.trailerContentType.toU8]

/-- There is room to seal a record, and the AEAD seals it. -/
structure Sealable (P : Primitives cs) (s : KeyScheduleState cs) (w : WriteBuffer)
    (header : ClientRecordHeader) : Prop where
  room : w.pos + 1 + cs.tagSize ≤ w.buffer.length
  seals : (sealedRecord P s (w.plaintext header)).isSome

theorem closeRecord_err_pos {e : TlsError} (h : closeRecord P s w = .error (.err e) w') :
    w'.pos = w.pos := by
  cases hheader : w.currentHeader with
  | none =>
      simp only [closeRecord, get_bind_apply, hheader, throw_apply] at h
      cases h
  | some header =>
      simp only [closeRecord, get_bind_apply, hheader, set_bind_apply] at h
      rcases bind_eq_error.mp h with hseal | ⟨_, w₁, -, hfinish⟩
      · cases hop : sealRecord P s header { w with currentHeader := none }.crypto with
        | ok u b =>
            rw [withBuffer_of_ok hop] at hseal
            cases hseal
        | error e b =>
            rw [withBuffer_of_error hop] at hseal
            cases hseal
            rfl
      · simp only [finishRecord, get_bind_apply] at hfinish
        split at hfinish <;> cases hfinish

/-- Sealing fails with an error and not with a panic. -/
theorem encrypt_error {b b' : CryptoBuffer} {e : Stop} (h : encrypt P s b = .error e b') :
    ∃ e', e = .err e' := by
  simp only [encrypt, KeyScheduleState.getKey, KeyScheduleState.getNonce, mapError_ok_eq,
    fromResult_ok_bind, get_bind_apply] at h
  split at h
  · cases h
    exact ⟨_, rfl⟩
  · obtain ⟨_, -, rfl⟩ := mapError_eq_error.mp h
    exact ⟨_, rfl⟩

section Closing

variable (hfive : HEADER_SIZE ≤ w.pos) (henc : header.isEncrypted)
include hfive henc

theorem sealRecord_of_not_sealable (hpos : w.pos ≤ w.buffer.length)
    (hseal : ¬Sealable P s w header) :
    ∃ e b, sealRecord P s header w.crypto = .error (.err e) b := by
  by_cases hroom : w.pos + 1 ≤ w.buffer.length
  · obtain ⟨b, hwf, -, hlen, hspace, -, hslice, hstep⟩ :=
      @sealRecord_window cs w header P s hfive henc hroom
    change b.asSlice = w.plaintext header at hslice
    rw [hstep]
    by_cases htag : cs.tagSize ≤ b.space
    · have hnone : sealedRecord P s (w.plaintext header) = none :=
        Option.not_isSome_iff_eq_none.mp fun h => hseal ⟨by omega, h⟩
      refine ⟨.invalidApplicationData, b, bind_of_error ?_⟩
      rw [encrypt_eq hwf htag, hslice, Option.map_eq_none_iff.mp hnone]
    · cases hencrypt : encrypt P s b with
      | ok u b' => exact absurd (encrypt_eq_ok hwf hencrypt).1 htag
      | error e b' =>
          obtain ⟨e, rfl⟩ := encrypt_error hencrypt
          exact ⟨e, b', bind_of_error hencrypt⟩
  · have hfull : w.crypto.space < [header.trailerContentType.toU8].length := by
      simp only [List.length_singleton, CryptoBuffer.space, crypto, CryptoBuffer.wrapWithPos,
        CryptoBuffer.capacity]
      omega
    obtain ⟨e, b, hpush⟩ := CryptoBuffer.Appends.err_of_full
      ((CryptoBuffer.appends_push header.trailerContentType.toU8).mapError fun _ => TlsError.encodeError)
      (crypto_wf hpos) hfull
    refine ⟨e, b, ?_⟩
    rw [sealRecord, henc, Bool.not_true, if_neg Bool.false_ne_true]
    exact bind_of_error hpush

theorem sealRecord_of_sealable (hseal : Sealable P s w header) :
    ∃ b, sealRecord P s header w.crypto = .ok () b ∧ HEADER_SIZE ≤ b.len ∧ b.len ≤ b.buf.length ∧
      b.buf.length = w.buffer.length := by
  have htag := hseal.room
  obtain ⟨b, hwf, hoffset, hlen, hspace, -, hslice, hstep⟩ :=
    @sealRecord_window cs w header P s hfive henc (by omega)
  change b.asSlice = w.plaintext header at hslice
  have hroom : cs.tagSize ≤ b.space := by omega
  obtain ⟨record, hrecord⟩ := Option.isSome_iff_exists.mp hseal.seals
  obtain ⟨ciphertext, hsealed, -⟩ := Option.map_eq_some_iff.mp hrecord
  have hct := P.aeadSeal_length hsealed
  rw [← hslice, CryptoBuffer.asSlice_length hwf] at hct
  have hencrypt : encrypt P s b =
      .ok () { b with buf := splice b.buf b.offset ciphertext, len := ciphertext.length } := by
    rw [encrypt_eq hwf hroom, hslice, hsealed]
  have hfits : b.offset + ciphertext.length ≤ b.buf.length := by
    simp only [CryptoBuffer.WF, CryptoBuffer.space, CryptoBuffer.capacity] at hwf hroom
    omega
  rw [bind_of_ok hencrypt, CryptoBuffer.offsetTo_eq (Nat.zero_le _)] at hstep
  refine ⟨_, hstep, ?_, ?_, ?_⟩
  · simp only [CryptoBuffer.moveTo, hoffset]
    omega
  · simp only [CryptoBuffer.moveTo, splice_length hfits]
    omega
  · simp only [CryptoBuffer.moveTo, splice_length hfits, hlen]

end Closing

section Closed

variable (hheader : w.currentHeader = some header) (hfive : HEADER_SIZE ≤ w.pos)
  (hpos : w.pos ≤ w.buffer.length)
include hheader hfive hpos

theorem closeRecord_of_sealable (hseal : header.isEncrypted → Sealable P s w header) :
    ∃ out buffer, closeRecord P s w = .ok out ⟨buffer, 0, none⟩ ∧
      buffer.length = w.buffer.length := by
  have hop : ∃ b, sealRecord P s header w.crypto = .ok () b ∧ HEADER_SIZE ≤ b.len ∧
      b.len ≤ b.buf.length ∧ b.buf.length = w.buffer.length := by
    cases henc : header.isEncrypted with
    | true => exact sealRecord_of_sealable hfive henc (hseal henc)
    | false =>
        refine ⟨w.crypto, ?_, hfive, hpos, rfl⟩
        rw [sealRecord, henc, Bool.not_false, if_pos rfl, pure_apply]
  obtain ⟨b, hop, hlow, hhigh, hlen⟩ := hop
  have hinside : ¬(b.len < HEADER_SIZE ∨ b.buf.length < b.len) := by omega
  have hsplice : (splice b.buf 3 (bigEndian 2 (b.len - HEADER_SIZE))).length = w.buffer.length := by
    rw [← hlen]
    exact splice_length (by
      rw [bigEndian_length]
      exact Nat.le_trans hlow hhigh)
  simp only [closeRecord, get_bind_apply, hheader, set_bind_apply]
  rw [bind_of_ok (withBuffer_of_ok (w := { w with currentHeader := none }) hop)]
  simp only [finishRecord, get_bind_apply, if_neg hinside, set_bind_apply, pure_apply]
  exact ⟨_, _, rfl, hsplice⟩

theorem closeRecord_of_not_sealable (henc : header.isEncrypted) (hseal : ¬Sealable P s w header) :
    ∃ e w', closeRecord P s w = .error (.err e) w' := by
  obtain ⟨e, b, hop⟩ := sealRecord_of_not_sealable hfive henc hpos hseal
  refine ⟨e, { w with buffer := b.buf, currentHeader := none }, ?_⟩
  simp only [closeRecord, get_bind_apply, hheader, set_bind_apply]
  exact bind_of_error (withBuffer_of_error (w := { w with currentHeader := none }) hop)

end Closed

end WriteBuffer

theorem KeySchedule.createPskBinder_uninitialized {P : Primitives cs} {ks : WriteKeySchedule cs}
    (hkey : ks.binderKey = .uninitialized) (transcript : Bytes) :
    createPskBinder P ks transcript = .error .internalError := by
  rw [createPskBinder, hkey, finishedMac, Secret.makeExpandedHkdfLabel_uninitialized, error_bind,
    error_bind]

namespace SentRecord

variable {P : Primitives cs} {ks : WriteKeySchedule cs} {record : SentRecord cs}

section Encode

variable {b : CryptoBuffer} (hb : b.WF)
include hb

theorem encodePayload_of_full (hfull : b.space < record.payload.length) :
    ∃ e b', record.encodePayload b = .error (.err e) b' := by
  rcases record with ⟨hello, encrypted⟩ | ⟨message, encrypted⟩ | ⟨a, encrypted⟩
  · exact hello.appends_encodeHandshake.err_of_full hb hfull
  · obtain ⟨e, b', hencode⟩ := message.appends_encode.err_of_full hb hfull
    exact ⟨e, b', bind_of_error hencode⟩
  · exact a.appends_encode.err_of_full hb hfull

end Encode

theorem finishRecord_of_not_hasBinderKey (hkey : ¬record.HasBinderKey ks) (t : Bytes) :
    ∃ e f, record.finishRecord P ks ⟨record.payload, t⟩ = .error (.err e) f := by
  rcases record with ⟨hello, _ | _⟩ | ⟨message, encrypted⟩ | ⟨a, encrypted⟩
  · obtain ⟨hids, hbinder⟩ := not_or.mp hkey
    obtain ⟨id, ids, hcons⟩ := List.exists_cons_of_ne_nil hids
    have hbinders : hello.binders P ks t = .error .internalError := by
      rw [ClientHello.binders, hcons, List.mapM_cons,
        KeySchedule.createPskBinder_uninitialized (not_not.mp hbinder), error_bind]
    exact ⟨_, ClientHello.finalize_of_error hbinders⟩
  · exact absurd trivial hkey
  · exact absurd trivial hkey
  · exact absurd trivial hkey

theorem finish_of_error {b : CryptoBuffer} {t : Bytes} {f : Finalizing} {e : Stop}
    (h : record.finishRecord P ks ⟨b.asSlice, t⟩ = .error e f) :
    ∃ p, record.finish P ks (b, some t) = .error e p := by
  rw [finish, get_bind_apply]
  exact ⟨_, onPart_of_error h⟩

section Fill

variable {buf : Bytes} {pos : Nat} (hpos : pos ≤ buf.length) {transcript : Option Bytes}
include hpos

theorem fill_of_full (hfull : buf.length < pos + record.payload.length) :
    ∃ e p, record.fill P ks (.wrapWithPos buf pos, transcript) = .error (.err e) p := by
  have hless : CryptoBuffer.space ⟨buf, pos, 0⟩ < record.payload.length := by
    simp only [CryptoBuffer.space, CryptoBuffer.capacity]
    omega
  obtain ⟨e, b, hencode⟩ := @encodePayload_of_full _ record ⟨buf, pos, 0⟩ hpos hless
  refine ⟨e, (b, transcript), ?_⟩
  rw [fill_step]
  exact bind_of_error (onPart_of_error hencode)

variable (hfits : pos + record.payload.length ≤ buf.length)
include hfits

theorem fill_of_panics (hpanics : record.panics) :
    ∃ p, record.fill P ks (.wrapWithPos buf pos, transcript) = .error .panic p := by
  have hencode := @encodePayload_of_fits _ record ⟨buf, pos, 0⟩ hpos (by
    simp only [CryptoBuffer.space, CryptoBuffer.capacity]
    omega)
  rw [if_pos hpanics] at hencode
  rw [fill_step]
  exact ⟨_, bind_of_error (onPart_of_error hencode)⟩

variable (hpanics : record.panics = false)
include hpanics

theorem fill_of_unfinished (h : ¬(transcript.isSome ∧ record.HasBinderKey ks)) :
    ∃ e p, record.fill P ks (.wrapWithPos buf pos, transcript) = .error (.err e) p := by
  rw [fill_encoded hpos hfits hpanics]
  cases transcript with
  | none => exact ⟨_, _, bind_of_error rfl⟩
  | some t =>
      obtain ⟨e, f, hfinish⟩ := @finishRecord_of_not_hasBinderKey _ P ks record
        (fun hkey => h ⟨rfl, hkey⟩) t
      rw [← @asSlice_of_encoded buf record.payload pos hpos] at hfinish
      obtain ⟨p, hfailed⟩ := finish_of_error hfinish
      exact ⟨e, p, bind_of_error hfailed⟩

end Fill

theorem message_of_isEncrypted (henc : record.header.isEncrypted) (t : Bytes) :
    record.message P ks t = .ok record.payload := by
  rcases record with ⟨hello, _ | _⟩ | ⟨message, encrypted⟩ | ⟨a, encrypted⟩
  · cases henc
  · rfl
  · rfl
  · rfl

end SentRecord

namespace RecordWriter

variable {P : Primitives cs} {ks : WriteKeySchedule cs} {record : SentRecord cs}
  {o : RecordWriter}

/-- What a protected record is sealed over when it is written behind other bytes. -/
def plaintextOf (o : RecordWriter) (record : SentRecord cs) : Bytes :=
  (o.buffer.buffer.take o.buffer.pos ++
    (record.header.bytes ++ ([0, 0] ++ record.payload))).drop HEADER_SIZE ++
      [record.header.trailerContentType.toU8]

/-- What a record needs behind its payload, if encoding it does not panic. -/
structure Finishes (P : Primitives cs) (ks : WriteKeySchedule cs) (record : SentRecord cs)
    (o : RecordWriter) : Prop where
  transcript : o.transcript.isSome
  binderKey : record.HasBinderKey ks
  sealRoom : record.header.isEncrypted →
    o.buffer.pos + HEADER_SIZE + record.payload.length + 1 + cs.tagSize ≤ o.buffer.buffer.length
  seals : record.header.isEncrypted → (sealedRecord P ks.state (o.plaintextOf record)).isSome

/-- The record fits: header and payload, and what comes behind them. -/
structure Fits (P : Primitives cs) (ks : WriteKeySchedule cs) (record : SentRecord cs)
    (o : RecordWriter) : Prop where
  room : o.buffer.pos + HEADER_SIZE + record.payload.length ≤ o.buffer.buffer.length
  finishes : record.panics = false → Finishes P ks record o

/-- A failure leaves no record and no bytes behind. -/
def LeavesEmpty (P : Primitives cs) (ks : WriteKeySchedule cs) (record : SentRecord cs)
    (o : RecordWriter) : Prop :=
  ∀ e o', writeRecord P ks record o = .error (.err e) o' → o'.buffer.Idle

theorem withBuffer_of_error {op : Filling} {e : Stop} {b : CryptoBuffer} {t : Option Bytes}
    (h : op (.wrapWithPos o.buffer.buffer o.buffer.pos, o.transcript) = .error e (b, t)) :
    withBuffer op o = .error e ⟨{ o.buffer with buffer := b.buf }, t⟩ := by
  rw [withBuffer, h]

section Started

variable (hnone : o.buffer.currentHeader = none)
  (hroom : o.buffer.pos + HEADER_SIZE ≤ o.buffer.buffer.length)
include hnone hroom

/-- The record stays open when filling it fails. -/
theorem writeRecord_of_fill_error {e : Stop} {p : CryptoBuffer × Option Bytes}
    (hfill : record.fill P ks (.wrapWithPos (o.started record.header).buffer.buffer
      (o.buffer.pos + 5), o.transcript) = .error e p) :
    ∃ o', writeRecord P ks record o = .error e o' ∧ ¬o'.buffer.Idle := by
  obtain ⟨b, t⟩ := p
  refine ⟨⟨{ (o.started record.header).buffer with buffer := b.buf }, t⟩, ?_, ?_⟩
  · rw [writeRecord_of_started hnone hroom]
    exact bind_of_error (withBuffer_of_error hfill)
  · intro hidle
    cases hidle.currentHeader

end Started

/-- A record that has been filled can be sealed if there was room for it to begin with. -/
theorem sealable_iff {o' : RecordWriter} (hroom : o.buffer.pos + 5 ≤ o.buffer.buffer.length)
    (henc : record.header.isEncrypted)
    (h : withBuffer (record.fill P ks) (o.started record.header) = .ok () o') :
    WriteBuffer.Sealable P ks.state o'.buffer record.header ↔
      o.buffer.pos + HEADER_SIZE + record.payload.length + 1 + cs.tagSize ≤ o.buffer.buffer.length ∧
        (sealedRecord P ks.state (o.plaintextOf record)).isSome := by
  obtain ⟨t, m, -, hmessage, hlen, -, hpos, -, hlength, hcontent, -⟩ := fill_eq_ok hroom h
  rw [SentRecord.message_of_isEncrypted henc] at hmessage
  cases hmessage
  have hplain : o'.buffer.plaintext record.header = o.plaintextOf record := by
    rw [WriteBuffer.plaintext, hcontent, plaintextOf]
  constructor
  · rintro ⟨htag, hseals⟩
    rw [hpos, hlength] at htag
    rw [hplain] at hseals
    exact ⟨htag, hseals⟩
  · rintro ⟨htag, hseals⟩
    refine ⟨?_, by rw [hplain]; exact hseals⟩
    rw [hpos, hlength]
    exact htag

theorem writeRecord_of_not_fits (hnone : o.buffer.currentHeader = none)
    (h : ¬Fits P ks record o) :
    ∃ e o', writeRecord P ks record o = .error (.err e) o' ∧ ¬o'.buffer.Idle := by
  by_cases hstart : o.buffer.pos + HEADER_SIZE ≤ o.buffer.buffer.length
  swap
  · obtain ⟨e, w, hfailed, hheader⟩ :=
      @WriteBuffer.startRecord_of_full _ record.header hnone hstart
    refine ⟨e, { o with buffer := w }, ?_, fun hidle => ?_⟩
    · simp only [writeRecord, get_bind_apply, hnone, Option.isSome_none, Bool.false_eq_true,
        if_false]
      exact bind_of_error (onPart_of_error hfailed)
    · rw [hidle.currentHeader] at hheader
      cases hheader
  have hlength := @started_length o record.header hstart
  have hinside : o.buffer.pos + 5 ≤ (o.started record.header).buffer.buffer.length := by
    rw [hlength]
    exact hstart
  by_cases hroom : o.buffer.pos + HEADER_SIZE + record.payload.length ≤ o.buffer.buffer.length
  swap
  · obtain ⟨e, p, hfill⟩ := @SentRecord.fill_of_full _ P ks record _ _ hinside o.transcript
      (by rw [hlength]; simp only [HEADER_SIZE] at hroom; omega)
    exact ⟨e, writeRecord_of_fill_error hnone hstart hfill⟩
  have hfits : o.buffer.pos + 5 + record.payload.length ≤
      (o.started record.header).buffer.buffer.length := by
    rw [hlength]
    exact hroom
  cases hpanics : record.panics with
  | true => exact absurd ⟨hroom, fun hno => absurd (hpanics.symm.trans hno) (by decide)⟩ h
  | false =>
      by_cases hdone : o.transcript.isSome ∧ record.HasBinderKey ks
      swap
      · obtain ⟨e, p, hfill⟩ :=
          @SentRecord.fill_of_unfinished _ P ks record _ _ hinside _ hfits hpanics hdone
        exact ⟨e, writeRecord_of_fill_error hnone hstart hfill⟩
      obtain ⟨⟨b, t⟩, hfill⟩ :=
        @SentRecord.fill_of_finished _ P ks record _ _ hinside _ hfits hpanics hdone.1 hdone.2
      have hfilled := @withBuffer_of_ok (o.started record.header) _ _ _ hfill
      obtain ⟨_, m, -, -, hlen, hheader, hpos, hend, -, -⟩ := fill_eq_ok hstart hfilled
      have hseal : ¬(record.header.isEncrypted → o.buffer.pos + HEADER_SIZE +
          record.payload.length + 1 + cs.tagSize ≤ o.buffer.buffer.length ∧
          (sealedRecord P ks.state (o.plaintextOf record)).isSome) := fun hseal =>
        h ⟨hroom, fun _ => ⟨hdone.1, hdone.2, fun henc => (hseal henc).1, fun henc => (hseal henc).2⟩⟩
      obtain ⟨henc, hseal⟩ := Classical.not_imp.mp hseal
      obtain ⟨e, w, hclose⟩ := WriteBuffer.closeRecord_of_not_sealable hheader
        (by rw [hpos, HEADER_SIZE]; omega) hend henc
        fun hsealable => hseal ((sealable_iff hstart henc hfilled).mp hsealable)
      refine ⟨e, ⟨w, t⟩, ?_, ?_⟩
      · rw [writeRecord_of_started hnone hstart, bind_of_ok hfilled]
        exact onPart_of_error hclose
      · intro hidle
        have hleft := (WriteBuffer.closeRecord_err_pos hclose).symm.trans hidle.pos
        rw [hpos] at hleft
        omega

theorem writeRecord_of_fits (hnone : o.buffer.currentHeader = none) (h : Fits P ks record o)
    (e : TlsError) (o' : RecordWriter) : writeRecord P ks record o ≠ .error (.err e) o' := by
  have hroom := h.room
  have hstart : o.buffer.pos + HEADER_SIZE ≤ o.buffer.buffer.length := by omega
  have hlength := @started_length o record.header hstart
  have hinside : o.buffer.pos + 5 ≤ (o.started record.header).buffer.buffer.length := by
    rw [hlength]
    exact hstart
  have hfits : o.buffer.pos + 5 + record.payload.length ≤
      (o.started record.header).buffer.buffer.length := by
    rw [hlength]
    exact hroom
  intro hfailed
  cases hpanics : record.panics with
  | true =>
      obtain ⟨p, hfill⟩ :=
        @SentRecord.fill_of_panics _ P ks record _ _ hinside o.transcript hfits hpanics
      obtain ⟨o₁, hpanic, -⟩ := writeRecord_of_fill_error hnone hstart hfill
      rw [hpanic] at hfailed
      cases hfailed
  | false =>
      have hfinishes := h.finishes hpanics
      obtain ⟨⟨b, t⟩, hfill⟩ := @SentRecord.fill_of_finished _ P ks record _ _ hinside _ hfits
        hpanics hfinishes.transcript hfinishes.binderKey
      have hfilled := @withBuffer_of_ok (o.started record.header) _ _ _ hfill
      obtain ⟨_, m, -, -, hlen, hheader, hpos, hend, -, -⟩ := fill_eq_ok hstart hfilled
      obtain ⟨out, buffer, hclose, -⟩ := WriteBuffer.closeRecord_of_sealable hheader
        (by rw [hpos, HEADER_SIZE]; omega) hend
        fun henc => (sealable_iff hstart henc hfilled).mpr
          ⟨hfinishes.sealRoom henc, hfinishes.seals henc⟩
      rw [writeRecord_of_started hnone hstart, bind_of_ok hfilled] at hfailed
      obtain ⟨w', hclosed, -⟩ := onPart_eq_error.mp hfailed
      rw [hclose] at hclosed
      cases hclosed

/-- A record that could not be written never leaves the buffer empty: the buffer is empty
behind every failure exactly when the record fits and nothing fails. -/
theorem failed_write_leaves_empty_iff (hnone : o.buffer.currentHeader = none) :
    LeavesEmpty P ks record o ↔ Fits P ks record o := by
  constructor
  · intro hempty
    by_contra hfits
    obtain ⟨e, o', hfailed, hleft⟩ := writeRecord_of_not_fits hnone hfits
    exact hleft (hempty e o' hfailed)
  · intro hfits e o' hfailed
    exact absurd hfailed (writeRecord_of_fits hnone hfits e o')

/-- A client certificate of `n` bytes in a protected record. -/
def certificateOf (n : Nat) : SentRecord .aes128GcmSha256 :=
  .later (.handshake (.clientCert ⟨[], [], [.x509 (List.replicate n 0)]⟩) true)

/-- A certificate that does not fit leaves a record without a payload behind, which the next
flush would send; a certificate whose tag does not fit leaves bytes without a header, and the
next flush panics. -/
theorem certificate_left_behind :
    let P := Primitives.checksumming .aes128GcmSha256
    let ks : WriteKeySchedule .aes128GcmSha256 := ⟨.new, .uninitialized⟩
    (∃ e o', writeRecord P ks (certificateOf 200) (fresh 129) = .error (.err e) o' ∧
      ¬o'.buffer.Idle ∧
      ∃ out w, WriteBuffer.closeRecord P ks.state o'.buffer = .ok out w ∧
        out.take 5 = [23, 3, 3, 0, 17]) ∧
    ∃ e o', writeRecord P ks (certificateOf 102) (fresh 129) = .error (.err e) o' ∧
      ¬o'.buffer.Idle ∧
      ∀ c : Client.TlsConnection .aes128GcmSha256, c.channel.buffer = o'.buffer →
        c.flush P = .error .panic c := by
  intro P ks
  constructor
  · let left := after (writeRecord P ks (certificateOf 200) (fresh 129))
    have hrun : outcome (writeRecord P ks (certificateOf 200) (fresh 129)) =
        .error (.err .insufficientSpace) := by decide +kernel
    have hpos : left.buffer.pos ≠ 0 := by decide +kernel
    have hclose : (outcome (WriteBuffer.closeRecord P ks.state left.buffer)).map (·.take 5) =
        .ok [23, 3, 3, 0, 17] := by decide +kernel
    refine ⟨_, left, outcome_eq_error hrun, fun hidle => hpos hidle.pos, ?_⟩
    cases hclosed : WriteBuffer.closeRecord P ks.state left.buffer with
    | ok out w =>
        rw [hclosed] at hclose
        exact ⟨out, w, rfl, Except.ok.inj hclose⟩
    | error e w =>
        rw [hclosed] at hclose
        cases hclose
  · let left := after (writeRecord P ks (certificateOf 102) (fresh 129))
    have hrun : outcome (writeRecord P ks (certificateOf 102) (fresh 129)) =
        .error (.err .insufficientSpace) := by decide +kernel
    have hpos : left.buffer.pos ≠ 0 := by decide +kernel
    have hheader : left.buffer.currentHeader = none := by decide +kernel
    refine ⟨_, left, outcome_eq_error hrun, fun hidle => hpos hidle.pos, ?_⟩
    intro c hc
    refine Client.TlsConnection.flush_of_broken ?_ ?_
    · rw [hc]
      exact hpos
    · rw [hc]
      exact hheader

theorem certificate_fits :
    let P := Primitives.checksumming .aes128GcmSha256
    let ks : WriteKeySchedule .aes128GcmSha256 := ⟨.new, .uninitialized⟩
    LeavesEmpty P ks (certificateOf 90) (fresh 129) ∧
      ¬LeavesEmpty P ks (certificateOf 102) (fresh 129) := by
  intro P ks
  constructor
  · refine (failed_write_leaves_empty_iff rfl).mpr ⟨?_, fun _ => ⟨rfl, trivial, fun _ => ?_, fun _ => ?_⟩⟩
    · decide +kernel
    · decide +kernel
    · decide +kernel
  · rw [failed_write_leaves_empty_iff rfl]
    intro hfits
    have := (hfits.finishes rfl).sealRoom rfl
    revert this
    decide +kernel

end RecordWriter

end GatoPskTls
