import GatoPskTls.Client.TlsConnection
import GatoPskTls.Client.Peer

/-!
# What unauthenticated records can do

Once keys are installed, everything the client takes from a record should come out of a
successful decryption. A record that is not application data goes to the same callback as a
decrypted one, so an unprotected handshake message reaches the transcript and an unprotected
`CloseNotify` closes an open connection; nothing else gets through.
-/
namespace GatoPskTls.Client

open Stateful BigEndian Splice History ParseBuffer

variable {cs : TlsCipherSuite} {σ π : Type}

/-- A plaintext holds content of some type, with padding behind the type. -/
def Holds (plaintext : Bytes) (contentType : ContentType) (content : Bytes) : Prop :=
  ∃ n, plaintext = content ++ contentType.toU8 :: List.replicate n 0

/-- Every byte string is content and padding, unless it is padding only. -/
theorem padded_cases (bytes : Bytes) : (∃ n, bytes = List.replicate n 0) ∨
    ∃ front byte n, byte ≠ 0 ∧ bytes = front ++ byte :: List.replicate n 0 := by
  induction bytes using List.reverseRecOn with
  | nil => exact .inl ⟨0, rfl⟩
  | append_singleton bytes last ih =>
      by_cases hlast : last = 0
      · subst hlast
        rcases ih with ⟨n, rfl⟩ | ⟨front, byte, n, hbyte, rfl⟩
        · exact .inl ⟨n + 1, List.replicate_succ'.symm⟩
        · exact .inr ⟨front, byte, n + 1, hbyte, by
            rw [List.replicate_succ', List.append_assoc, List.cons_append]⟩
      · exact .inr ⟨bytes, last, 0, hlast, rfl⟩

theorem lastNonZero_concat (bytes : Bytes) (last : UInt8) :
    lastNonZero (bytes ++ [last]) = if last = 0 then lastNonZero bytes else some bytes.length := by
  simp only [lastNonZero, List.zipIdx_append, List.reverse_append, List.zipIdx_singleton,
    List.reverse_singleton, List.singleton_append, List.find?_cons]
  by_cases h : last = 0 <;> simp [h]

theorem lastNonZero_replicate (n : Nat) : lastNonZero (List.replicate n 0) = none := by
  induction n with
  | zero => rfl
  | succ n ih => rw [List.replicate_succ', lastNonZero_concat, if_pos rfl, ih]

theorem lastNonZero_padded {front : Bytes} {byte : UInt8} (h : byte ≠ 0) (n : Nat) :
    lastNonZero (front ++ byte :: List.replicate n 0) = some front.length := by
  induction n with
  | zero => rw [List.replicate_zero, lastNonZero_concat, if_neg h]
  | succ n ih =>
      rw [List.replicate_succ', ← List.cons_append, ← List.append_assoc, lastNonZero_concat,
        if_pos rfl, ih]

/-- The content type is the last byte that is not padding. -/
theorem contentOf_padded {b : CryptoBuffer} (hb : b.WF) {front : Bytes} {byte : UInt8}
    (hbyte : byte ≠ 0) {n : Nat} (hslice : b.asSlice = front ++ byte :: List.replicate n 0) :
    contentOf (stripPadding b) =
      match ContentType.of byte with
      | none => .error (.err .invalidRecord)
      | some contentType => .ok (contentType, { b with len := front.length }) := by
  have hlen := CryptoBuffer.asSlice_length hb
  rw [hslice, List.length_append, List.length_cons, List.length_replicate] at hlen
  have hstrip : stripPadding b = { b with len := front.length + 1 } := by
    simp only [stripPadding, hslice, lastNonZero_padded hbyte]
    exact CryptoBuffer.truncate_eq hb (by omega)
  have hlast : (stripPadding b).asSlice = front ++ [byte] := by
    rw [hstrip, CryptoBuffer.asSlice_shorten (by omega), hslice, show front ++ byte :: List.replicate n 0 =
      (front ++ [byte]) ++ List.replicate n 0 by simp, List.take_left' (by simp)]
  have hwf : (stripPadding b).WF := by
    rw [hstrip]
    simp only [CryptoBuffer.WF] at *
    omega
  have htrunc : (stripPadding b).truncate ((stripPadding b).len - 1) = { b with len := front.length } := by
    rw [CryptoBuffer.truncate_eq hwf (Nat.sub_le _ _)]
    exact congrArg (fun c : CryptoBuffer => { c with len := c.len - 1 }) hstrip
  cases hof : ContentType.of byte with
  | none => simp only [contentOf, hlast, List.getLast?_concat, hof]
  | some contentType => simp only [contentOf, hlast, List.getLast?_concat, hof, htrunc]

theorem contentOf_zeros {b : CryptoBuffer} (hb : b.WF) {n : Nat}
    (hslice : b.asSlice = List.replicate (n + 1) 0) :
    contentOf (stripPadding b) = .ok (.invalid, { b with len := n }) := by
  have hlen := CryptoBuffer.asSlice_length hb
  rw [hslice, List.length_replicate] at hlen
  have hstrip : stripPadding b = b := by
    simp only [stripPadding, hslice, lastNonZero_replicate]
  have htrunc : b.truncate (b.len - 1) = { b with len := n } := by
    rw [CryptoBuffer.truncate_eq hb (Nat.sub_le _ _), ← hlen]
    rfl
  rw [hstrip, contentOf, hslice, List.replicate_succ', List.getLast?_concat, htrunc]
  rfl

theorem contentOf_empty {b : CryptoBuffer} (hslice : b.asSlice = []) :
    contentOf (stripPadding b) = .error .panic := by
  have hstrip : stripPadding b = b := by
    simp only [stripPadding, hslice]
    rfl
  rw [hstrip, contentOf, hslice]
  rfl

section Open

variable {P : Primitives cs} {s : KeyScheduleState cs} {header : RecordHeader} {body : Bytes}

theorem openRecord_eq :
    openRecord P s ⟨header, .wrapWithPos body body.length⟩ =
      match P.aeadOpen s.key (KeyScheduleState.nonce s.counter s.iv) header.header.val body with
      | none => .error (.err .cryptoError)
      | some plaintext =>
          contentOf (stripPadding ⟨splice body 0 plaintext, 0, plaintext.length⟩) := by
  simp only [openRecord, KeyScheduleState.getKey, KeyScheduleState.getNonce, mapError_ok_eq, ok_bind,
    CryptoBuffer.decryptInPlace_eq (CryptoBuffer.wrapWithPos_wf body), CryptoBuffer.wrapWithPos_asSlice]
  cases P.aeadOpen s.key (KeyScheduleState.nonce s.counter s.iv) header.header.val body <;> rfl

variable {plaintext : Bytes}
  (hopen : P.aeadOpen s.key (KeyScheduleState.nonce s.counter s.iv) header.header.val body =
    some plaintext)
include hopen

/-- The plaintext stands at the front of the body's buffer. -/
theorem opened_buffer :
    (⟨splice body 0 plaintext, 0, plaintext.length⟩ : CryptoBuffer).WF ∧
      (⟨splice body 0 plaintext, 0, plaintext.length⟩ : CryptoBuffer).asSlice = plaintext ∧
      (splice body 0 plaintext).length = body.length := by
  have hlen := P.aeadOpen_length hopen
  have hbuf : (splice body 0 plaintext).length = body.length := splice_length (by omega)
  refine ⟨?_, by simp [CryptoBuffer.asSlice, splice], hbuf⟩
  simp only [CryptoBuffer.WF]
  omega

/-- The content is the front of the plaintext. -/
theorem opened_content {n : Nat} (h : n ≤ plaintext.length) :
    (⟨splice body 0 plaintext, 0, n⟩ : CryptoBuffer).asSlice = plaintext.take n := by
  have hshort := @CryptoBuffer.asSlice_shorten ⟨splice body 0 plaintext, 0, plaintext.length⟩ n h
  rwa [(opened_buffer hopen).2.1] at hshort

theorem openRecord_of_empty (h : plaintext = []) :
    openRecord P s ⟨header, .wrapWithPos body body.length⟩ = .error .panic := by
  rw [openRecord_eq, hopen]
  exact contentOf_empty ((opened_buffer hopen).2.1.trans h)

theorem openRecord_of_zeros {n : Nat} (h : plaintext = List.replicate (n + 1) 0) :
    openRecord P s ⟨header, .wrapWithPos body body.length⟩ =
      .ok (.invalid, ⟨splice body 0 plaintext, 0, n⟩) := by
  obtain ⟨hwf, hslice, -⟩ := opened_buffer hopen
  rw [openRecord_eq, hopen]
  exact contentOf_zeros hwf (hslice.trans h)

theorem openRecord_of_padded {front : Bytes} {byte : UInt8} (hbyte : byte ≠ 0) {n : Nat}
    (h : plaintext = front ++ byte :: List.replicate n 0) :
    openRecord P s ⟨header, .wrapWithPos body body.length⟩ =
      match ContentType.of byte with
      | none => .error (.err .invalidRecord)
      | some contentType => .ok (contentType, ⟨splice body 0 plaintext, 0, front.length⟩) := by
  obtain ⟨hwf, hslice, -⟩ := opened_buffer hopen
  rw [openRecord_eq, hopen]
  exact contentOf_padded hwf hbyte (hslice.trans h)

end Open

/-- What is opened is the content of a plaintext the AEAD has accepted. -/
theorem openRecord_eq_ok {P : Primitives cs} {s : KeyScheduleState cs} {header : RecordHeader}
    {body : Bytes} {contentType : ContentType} {appData : CryptoBuffer}
    (h : openRecord P s ⟨header, .wrapWithPos body body.length⟩ = .ok (contentType, appData)) :
    ∃ plaintext, P.aeadOpen s.key (KeyScheduleState.nonce s.counter s.iv) header.header.val body =
        some plaintext ∧
      Holds plaintext contentType appData.asSlice ∧
      appData.buf.length = body.length ∧ appData.offset = 0 := by
  cases hopen : P.aeadOpen s.key (KeyScheduleState.nonce s.counter s.iv) header.header.val body with
  | none =>
      rw [openRecord_eq, hopen] at h
      cases h
  | some plaintext =>
      have hlen := (opened_buffer hopen).2.2
      rcases padded_cases plaintext with ⟨_ | n, heq⟩ | ⟨front, byte, n, hbyte, heq⟩
      · rw [openRecord_of_empty hopen heq] at h
        cases h
      · rw [openRecord_of_zeros hopen heq] at h
        cases h
        refine ⟨plaintext, rfl, ⟨0, ?_⟩, hlen, rfl⟩
        rw [opened_content hopen (by simp [heq]), heq, List.take_replicate, Nat.min_eq_left (by omega)]
        exact List.replicate_succ'
      · rw [openRecord_of_padded hopen hbyte heq] at h
        cases hof : ContentType.of byte with
        | none =>
            simp only [hof] at h
            cases h
        | some ct =>
            simp only [hof] at h
            cases h
            refine ⟨plaintext, rfl, ⟨n, ?_⟩, hlen, rfl⟩
            rw [opened_content hopen (by simp [heq]), ContentType.toU8_of hof, heq, List.take_left]

/-- The header of a protected record. -/
def protectedHeader (len : Nat) : RecordHeader :=
  ⟨⟨additionalData len, by simp [additionalData]⟩, .applicationData, rfl⟩

theorem protectedHeader_contentLength {len : Nat} (h : len < 256 ^ 2) :
    (protectedHeader len).contentLength = len := by
  simp only [RecordHeader.contentLength, protectedHeader, additionalData]
  rw [List.drop_left' (by rfl), fromBigEndian_bigEndian, Nat.mod_eq_of_lt h]

/-- The record is protected and the AEAD opens it under these keys and this count. -/
def Authentic (P : Primitives cs) (s : KeyScheduleState cs) (f : RecordReader.Fetched)
    (plaintext : Bytes) : Prop :=
  f.header.contentType = .applicationData ∧
    P.aeadOpen s.key (KeyScheduleState.nonce s.counter s.iv) f.header.header.val f.body =
      some plaintext

/-- An unprotected record whose first handshake message can be read. -/
def Smuggles (cs : TlsCipherSuite) (f : RecordReader.Fetched) : Prop :=
  f.header.contentType = .handshake ∧
    ∃ (message : ServerHandshake cs) (buf : ParseBuffer),
      ServerHandshake.parse (.new f.body) = .ok message buf

/-- An unprotected `CloseNotify`. -/
def SaysGoodbye (f : RecordReader.Fetched) : Prop :=
  f.header.contentType = .alert ∧
    ∃ alert, ServerRecord.parsed Alert.parse f.body = .ok alert ∧ alert.description = .closeNotify

/-- A fetched record is decoded and handed on. -/
def received (P : Primitives cs) (cb : Callback cs σ) (f : RecordReader.Fetched) :
    Reading.M cs σ Unit := fun r =>
  match ServerRecord.decode P f.header f.body r.schedule.transcriptHash with
  | .ok record t => decryptRecord P cb record { r with schedule.transcriptHash := t }
  | .error e t => .error e { r with schedule.transcriptHash := t }

/-- Everything that can become of a record. -/
inductive Receives (P : Primitives cs) (cb : Callback cs σ) (f : RecordReader.Fetched)
    (r : Reading cs σ) : EStateM.Result Stop (Reading cs σ) Unit → Prop
  | refused (e : Stop) : Receives P cb f r (.error e r)
  | changeCipherSpec : f.header.contentType = .changeCipherSpec →
      Receives P cb f r (cb .changeCipherSpec r)
  | alert {a : Alert} : f.header.contentType = .alert →
      ServerRecord.parsed Alert.parse f.body = .ok a → Receives P cb f r (cb (.alert a) r)
  | message {m : ServerHandshake cs} {t : Bytes} : Smuggles cs f →
      Receives P cb f r (cb (.handshake m) { r with schedule.transcriptHash := t })
  | content {plaintext : Bytes} {contentType : ContentType} {appData : CryptoBuffer} :
      Authentic P r.schedule.state f plaintext → Holds plaintext contentType appData.asSlice →
      appData.buf.length = f.body.length → appData.offset = 0 →
      Receives P cb f r ((deliver P cb f.header appData contentType >>= fun _ =>
        Reading.onState KeyScheduleState.incrementCounter) r)

theorem receives (P : Primitives cs) (cb : Callback cs σ) {f : RecordReader.Fetched}
    (hlen : f.body.length = f.header.contentLength) (r : Reading cs σ) :
    Receives P cb f r (received P cb f r) := by
  simp only [received, ServerRecord.decode_eq hlen]
  cases hc : f.header.contentType with
  | invalid => exact .refused _
  | changeCipherSpec => exact .changeCipherSpec hc
  | alert =>
      cases hp : ServerRecord.parsed Alert.parse f.body with
      | error e => exact .refused e
      | ok a => exact .alert hc hp
  | handshake =>
      cases hp : ServerRecord.parsed (ServerHandshake.read P r.schedule.transcriptHash) f.body with
      | error e => exact .refused e
      | ok read =>
          obtain ⟨b, hread⟩ := ServerRecord.parsed_eq_ok.mp hp
          obtain ⟨parsed, hparse, -⟩ := ServerHandshake.read_parse hread
          exact .message ⟨hc, parsed, b, hparse⟩
  | applicationData =>
      simp only [decryptRecord, get_bind_apply]
      cases hopen : openRecord P r.schedule.state ⟨f.header, .wrapWithPos f.body f.body.length⟩ with
      | error e =>
          rw [fromResult_error_bind]
          exact .refused e
      | ok opened =>
          obtain ⟨contentType, appData⟩ := opened
          obtain ⟨plaintext, haead, hholds, hbuf, hoffset⟩ := openRecord_eq_ok hopen
          rw [fromResult_ok_bind]
          exact .content ⟨hc, haead⟩ hholds hbuf hoffset

/-- The message of an unprotected handshake record is in the transcript when the callback gets
to see it. -/
theorem received_smuggled {P : Primitives cs} {cb : Callback cs σ} {f : RecordReader.Fetched}
    (hlen : f.body.length = f.header.contentLength) (h : Smuggles cs f) (r : Reading cs σ) :
    ∃ (m : ServerHandshake cs) (w : Bytes), w ≠ [] ∧ received P cb f r =
      cb (.handshake m)
        { r with schedule.transcriptHash := r.schedule.transcriptHash ++ w } := by
  obtain ⟨hc, message, buf, hparse⟩ := h
  obtain ⟨m, digest, hread⟩ := ServerHandshake.read_of_parse (P := P)
    (d := r.schedule.transcriptHash) hparse
  obtain ⟨w, hw, -, rfl⟩ := ServerHandshake.read_eq_ok hread
  refine ⟨m, w, List.ne_nil_of_length_pos (by omega), ?_⟩
  simp only [received, ServerRecord.decode_eq hlen, hc, ServerRecord.parsed_eq_ok.mpr ⟨buf, hread⟩,
    decryptRecord]

theorem received_alert {P : Primitives cs} {cb : Callback cs σ} {f : RecordReader.Fetched} {a : Alert}
    (hlen : f.body.length = f.header.contentLength) (hc : f.header.contentType = .alert)
    (ha : ServerRecord.parsed Alert.parse f.body = .ok a) (r : Reading cs σ) :
    received P cb f r = cb (.alert a) r := by
  simp only [received, ServerRecord.decode_eq hlen, hc, ha, decryptRecord]

theorem Authentic.unique {P : Primitives cs} {s : KeyScheduleState cs} {f : RecordReader.Fetched}
    {p p' : Bytes} (h : Authentic P s f p) (h' : Authentic P s f p') : p = p' :=
  Option.some.inj (h.2.symm.trans h'.2)

/-- Only the content of an accepted plaintext is absorbed. -/
def Absorbs (plaintext : Bytes) (before later : Bytes) : Prop :=
  ∃ w, later = before ++ w ∧ (w ≠ [] → ∃ content, Holds plaintext .handshake content ∧ w <+: content)

theorem Absorbs.refl (plaintext before : Bytes) : Absorbs plaintext before before :=
  ⟨[], (List.append_nil _).symm, fun h => absurd rfl h⟩

section Transcript

variable {P : Primitives cs} {cb : Callback cs σ} (hcb : ∀ record, Keeps SameSchedule (cb record))
include hcb

theorem content_absorbs {plaintext : Bytes} {contentType : ContentType} {appData : CryptoBuffer}
    (hholds : Holds plaintext contentType appData.asSlice) (header : RecordHeader)
    (r : Reading cs σ) :
    Absorbs plaintext r.schedule.transcriptHash
      (after ((deliver P cb header appData contentType >>= fun _ =>
        Reading.onState KeyScheduleState.incrementCounter) r)).schedule.transcriptHash := by
  have hcount : Keeps (fun r r' : Reading cs σ => r'.schedule.transcriptHash = r.schedule.transcriptHash)
      (Reading.onState KeyScheduleState.incrementCounter : Reading.M cs σ Unit) :=
    Keeps.onPart (R := fun _ _ => True) (fun _ => trivial) fun _ _ _ => rfl
  obtain ⟨w, hw, htranscript⟩ := (deliver_transcribes (P := P) hcb header appData contentType r).transcript
  refine ⟨w, ?_, fun hne => ?_⟩
  · rw [← htranscript]
    cases hdeliver : deliver P cb header appData contentType r with
    | ok u r₁ =>
        rw [bind_of_ok hdeliver]
        exact hcount r₁
    | error e r₁ => rw [bind_of_error hdeliver]
  · split at hw
    next hc => exact ⟨appData.asSlice, hc ▸ hholds, hw⟩
    next => exact absurd (List.prefix_nil.mp hw) hne

theorem Receives.transcript {f : RecordReader.Fetched} {r : Reading cs σ}
    {res : EStateM.Result Stop (Reading cs σ) Unit} (h : Receives P cb f r res)
    (hs : ¬Smuggles cs f) :
    (∀ plaintext, Authentic P r.schedule.state f plaintext →
      Absorbs plaintext r.schedule.transcriptHash (after res).schedule.transcriptHash) ∧
    ((¬∃ plaintext, Authentic P r.schedule.state f plaintext) →
      (after res).schedule = r.schedule) := by
  have hsame : (after res).schedule = r.schedule →
      (∀ plaintext, Authentic P r.schedule.state f plaintext →
        Absorbs plaintext r.schedule.transcriptHash (after res).schedule.transcriptHash) ∧
      ((¬∃ plaintext, Authentic P r.schedule.state f plaintext) →
        (after res).schedule = r.schedule) :=
    fun heq => ⟨fun p _ => heq ▸ .refl p _, fun _ => heq⟩
  cases h with
  | refused e => exact hsame rfl
  | changeCipherSpec hc => exact hsame (hcb _ r)
  | alert hc ha => exact hsame (hcb _ r)
  | message hm => exact absurd hm hs
  | content hauth hholds hbuf hoffset =>
      exact ⟨fun p hp => hauth.unique hp ▸ content_absorbs hcb hholds f.header r,
        fun hnot => absurd ⟨_, hauth⟩ hnot⟩

end Transcript

/-- What the callback has captured is the same. -/
abbrev SameCaptured : Reading cs σ → Reading cs σ → Prop := Same Reading.captured

theorem keeps_readMessage (P : Primitives cs) (buf : ParseBuffer) :
    Keeps SameCaptured (Reading.readMessage P buf : Reading.M cs σ _) := by
  intro r
  simp only [Reading.readMessage]
  split <;> rfl

theorem keeps_onState (x : EStateM Stop (KeyScheduleState cs) Unit) :
    Keeps SameCaptured (Reading.onState x : Reading.M cs σ Unit) :=
  Keeps.onPart (R := fun _ _ => True) (fun _ => trivial) fun _ _ _ => rfl

/-- The callback of `read_application_data`. -/
def handler (start : Nat) : Callback cs Handling :=
  fun record => Reading.onCaptured (Handling.handle start record)

/-- The decrypted bytes that have not been taken yet. -/
def DecryptedBufferInfo.window (info : DecryptedBufferInfo) (buffer : Bytes) : Bytes :=
  (buffer.drop (info.offset + info.consumed)).take (info.len - info.consumed)

theorem DecryptedBufferInfo.window_of_isEmpty {info : DecryptedBufferInfo} (h : info.isEmpty)
    (buffer : Bytes) : info.window buffer = [] := by
  simp only [isEmpty, beq_iff_eq] at h
  rw [window, h, List.take_zero]

theorem DecryptedBufferInfo.window_pop (info : DecryptedBufferInfo) (count : Nat) (buffer : Bytes) :
    (info.pop count).window buffer = (info.window buffer).drop count := by
  simp only [window, pop, List.drop_take, List.drop_drop]
  rcases Nat.le_total count (info.len - info.consumed) with h | h
  · rw [Nat.min_eq_right h]
    congr 1
    · omega
    · rw [Nat.add_assoc]
  · rw [Nat.min_eq_left h, show info.len - (info.consumed + (info.len - info.consumed)) = 0 by omega,
      show info.len - info.consumed - count = 0 by omega, List.take_zero, List.take_zero]

namespace Handling

def window (h : Handling) : Bytes := h.bufferInfo.window h.source

theorem keeps_handle_message (start : Nat) (m : ServerHandshake cs) :
    Keeps (fun h h' : Handling => h' = h) (handle start (.handshake m)) := by
  intro h
  cases m <;> rfl

/-- The handling once a decrypted record stands in the buffer. -/
def showing (start : Nat) (data : CryptoBuffer) (h : Handling) : Handling :=
  { h with
    source := splice h.source start data.buf
    bufferInfo := ⟨start, data.asSlice.length, 0, Nat.zero_le _⟩ }

/-- The window over a decrypted record shows its content. -/
theorem showing_window {start : Nat} {data : CryptoBuffer} {h : Handling} (hoffset : data.offset = 0)
    (hstart : start ≤ h.source.length) : (showing start data h).window = data.asSlice := by
  have hdrop : (splice h.source start data.buf).drop start =
      data.buf ++ h.source.drop (start + data.buf.length) := by
    rw [splice, List.append_assoc, List.drop_left' (by simp; omega)]
  have hslice : data.asSlice = data.buf.take data.len := by
    simp only [CryptoBuffer.asSlice, hoffset, List.drop_zero]
  simp only [window, showing, DecryptedBufferInfo.window, Nat.add_zero, Nat.sub_zero, hdrop]
  rw [hslice, List.take_append_of_le_length (by simp), List.length_take]
  simp

theorem handleData_eq {start : Nat} {data : CryptoBuffer} (hoffset : data.offset = 0) (h : Handling) :
    handleData start data h =
      if start < h.source.length ∧ start + data.asSlice.length < h.source.length then
        .ok () (showing start data h)
      else .error .panic h := by
  simp only [handleData, get_bind_apply, hoffset, Nat.add_zero]
  split <;> rfl

theorem handleData_spec {start : Nat} {data : CryptoBuffer} {h : Handling}
    (hoffset : data.offset = 0) :
    (after (handleData start data h)).isOpen = h.isOpen ∧
      (after (handleData start data h) = h ∨
        (after (handleData start data h)).window = data.asSlice) := by
  rw [handleData_eq hoffset]
  split
  next hin => exact ⟨rfl, .inr (showing_window hoffset (by omega))⟩
  next => exact ⟨rfl, .inl rfl⟩

end Handling

/-- What an open connection takes from a record comes from an accepted plaintext. -/
structure Takes (plaintext : Bytes) (h h' : Handling) : Prop where
  isOpen : h'.isOpen ≠ h.isOpen → ∃ content alert, Holds plaintext .alert content ∧
    ServerRecord.parsed Alert.parse content = .ok alert ∧ alert.description = .closeNotify
  window : h'.window ≠ h.window → Holds plaintext .applicationData h'.window

theorem Takes.refl (plaintext : Bytes) (h : Handling) : Takes plaintext h h :=
  ⟨fun hne => absurd rfl hne, fun hne => absurd rfl hne⟩

section Handled

variable {P : Primitives cs} {start : Nat} {f : RecordReader.Fetched} {r : Reading cs Handling}

theorem handler_alert {a : Alert} : ∃ e, (handler start (.alert a) : Reading.M cs Handling Unit) r =
    .error (.err e) { r with captured.isOpen := if a.description = .closeNotify then false
      else r.captured.isOpen } := by
  by_cases ha : a.description = .closeNotify
  · refine ⟨.connectionClosed, ?_⟩
    simp only [handler, Reading.onCaptured, Handling.handle, onPart, if_pos ha, modify_bind_apply,
      throw_apply]
  · refine ⟨.internalError, ?_⟩
    simp only [handler, Reading.onCaptured, Handling.handle, onPart, if_neg ha, throw_apply]

theorem keeps_handler_message (start : Nat) (m : ServerHandshake cs) :
    Keeps SameCaptured (handler start (.handshake m)) :=
  (Handling.keeps_handle_message start m).onPart fun _ _ h => h

theorem deliver_takes {plaintext : Bytes} {contentType : ContentType} {appData : CryptoBuffer}
    (hholds : Holds plaintext contentType appData.asSlice) (hoffset : appData.offset = 0) :
    Takes plaintext r.captured
      (after (deliver P (handler start) f.header appData contentType r)).captured := by
  cases contentType with
  | handshake =>
      have hkept : SameCaptured r (after (deliver P (handler start) f.header appData .handshake r)) :=
        keeps_deliverMessages (keeps_readMessage P) (keeps_handler_message start) _ _ r
      rw [show _ = r.captured from hkept]
      exact .refl _ _
  | invalid => exact .refl _ _
  | changeCipherSpec => exact .refl _ _
  | alert =>
      simp only [deliver]
      cases hparse : ServerRecord.parsed Alert.parse appData.asSlice with
      | error e =>
          rw [fromResult_error_bind]
          exact .refl _ _
      | ok a =>
          obtain ⟨e, hcall⟩ := @handler_alert cs start r a
          rw [fromResult_ok_bind, hcall]
          refine ⟨fun hne => ⟨appData.asSlice, a, hholds, hparse, ?_⟩, fun hne => absurd rfl hne⟩
          by_contra ha
          exact hne (by simp [ha])
  | applicationData =>
      have hafter : (after (deliver P (handler start) f.header appData .applicationData r)).captured =
          after (Handling.handleData start appData r.captured) := by
        simp only [deliver, handler, Reading.onCaptured, Handling.handle, onPart]
        cases Handling.handleData start appData r.captured <;> rfl
      obtain ⟨hopen, hwindow⟩ := @Handling.handleData_spec start appData r.captured hoffset
      rw [hafter]
      refine ⟨fun hne => absurd hopen hne, fun hne => ?_⟩
      rcases hwindow with hsame | hwindow
      · exact absurd (congrArg Handling.window hsame) hne
      · rwa [hwindow]

/-- Counting the record does not change what its content has changed. -/
theorem content_takes {plaintext : Bytes} {contentType : ContentType} {appData : CryptoBuffer}
    (hholds : Holds plaintext contentType appData.asSlice) (hoffset : appData.offset = 0) :
    Takes plaintext r.captured
      (after ((deliver P (handler start) f.header appData contentType >>= fun _ =>
        Reading.onState KeyScheduleState.incrementCounter) r)).captured := by
  have htakes := @deliver_takes cs P start f r _ _ _ hholds hoffset
  cases hdeliver : deliver P (handler start) f.header appData contentType r with
  | error e r₁ =>
      rw [bind_of_error hdeliver]
      rwa [hdeliver] at htakes
  | ok u r₁ =>
      rw [bind_of_ok hdeliver, show _ = r₁.captured from keeps_onState _ r₁]
      rwa [hdeliver] at htakes

/-- Whatever the record, what it puts into the window is authentic application data. -/
theorem Receives.window {res : EStateM.Result Stop (Reading cs Handling) Unit}
    (h : Receives P (handler start) f r res) :
    (after res).captured.window = r.captured.window ∨
      ∃ plaintext, Authentic P r.schedule.state f plaintext ∧
        Holds plaintext .applicationData (after res).captured.window := by
  cases h with
  | refused e => exact .inl rfl
  | changeCipherSpec hc => exact .inl rfl
  | @alert a hc ha =>
      obtain ⟨e, hcall⟩ := @handler_alert cs start r a
      rw [hcall]
      exact .inl rfl
  | @message m t hm => exact .inl (congrArg Handling.window (keeps_handler_message start m _))
  | @content plaintext contentType appData hauth hholds hbuf hoffset =>
      by_cases hsame : (after ((deliver P (handler start) f.header appData contentType >>= fun _ =>
          Reading.onState KeyScheduleState.incrementCounter) r)).captured.window = r.captured.window
      · exact .inl hsame
      · exact .inr ⟨plaintext, hauth, (content_takes hholds hoffset).window hsame⟩

/-- An unprotected record that neither smuggles a message nor says goodbye has no effect. -/
theorem Receives.handled {res : EStateM.Result Stop (Reading cs Handling) Unit}
    (h : Receives P (handler start) f r res) (hs : ¬Smuggles cs f) (hg : ¬SaysGoodbye f) :
    (∀ plaintext, Authentic P r.schedule.state f plaintext →
      Takes plaintext r.captured (after res).captured) ∧
    ((¬∃ plaintext, Authentic P r.schedule.state f plaintext) →
      (after res).captured = r.captured ∧ ∃ e r', res = .error e r') := by
  have hsame : (∃ e, res = .error e r) →
      (∀ plaintext, Authentic P r.schedule.state f plaintext →
        Takes plaintext r.captured (after res).captured) ∧
      ((¬∃ plaintext, Authentic P r.schedule.state f plaintext) →
        (after res).captured = r.captured ∧ ∃ e r', res = .error e r') := by
    rintro ⟨e, rfl⟩
    exact ⟨fun p _ => .refl p _, fun _ => ⟨rfl, e, r, rfl⟩⟩
  cases h with
  | refused e => exact hsame ⟨e, rfl⟩
  | changeCipherSpec hc => exact hsame ⟨_, rfl⟩
  | @alert a hc ha =>
      obtain ⟨e, hcall⟩ := @handler_alert cs start r a
      have hnot : a.description ≠ .closeNotify := fun hclose => hg ⟨hc, a, ha, hclose⟩
      exact hsame ⟨.err e, by rw [hcall, if_neg hnot]⟩
  | message hm => exact absurd hm hs
  | @content plaintext contentType appData hauth hholds hbuf hoffset =>
      exact ⟨fun p hp => hauth.unique hp ▸ content_takes hholds hoffset,
        fun hnot => absurd ⟨_, hauth⟩ hnot⟩

end Handled

namespace Channel

theorem read_of_fetch {P : Primitives cs} {c : Channel cs} {f : RecordReader.Fetched} {i : Intake}
    (h : RecordReader.fetch c.intake = .ok f i) :
    read P c =
      match ServerRecord.decode P f.header f.body c.schedule.serverState.transcriptHash with
      | .ok record t =>
          .ok (f.start, record) { c with intake := i, schedule.serverState.transcriptHash := t }
      | .error e t => .error e { c with intake := i, schedule.serverState.transcriptHash := t } := by
  have hread := Inbound.read_of_fetch (P := P) (i := ⟨c.intake, c.schedule.serverState⟩) h
  simp only [read, onInbound, onPart, hread]
  cases ServerRecord.decode P f.header f.body c.schedule.serverState.transcriptHash <;> rfl

theorem read_of_fetch_error {P : Primitives cs} {c : Channel cs} {e : Stop} {i : Intake}
    (h : RecordReader.fetch c.intake = .error e i) :
    read P c = .error e { c with intake := i } := by
  have hread := Inbound.read_of_fetch_error (P := P) (i := ⟨c.intake, c.schedule.serverState⟩) h
  simp only [read, onInbound, onPart, hread]

end Channel

namespace TlsConnection

def window (c : TlsConnection cs) : Bytes := c.decrypted.window c.channel.intake.reader.buf

theorem readApplicationData_of_fetch {P : Primitives cs} {c : TlsConnection cs}
    {f : RecordReader.Fetched} {i : Intake}
    (h : RecordReader.fetch c.channel.intake = .ok f i) :
    readApplicationData P c =
      onPart handling putHandling (received P (handler f.start) f)
        { c with channel.intake := i } := by
  have hread := Channel.read_of_fetch (P := P) h
  simp only [readApplicationData]
  simp only [onPart, received, handling]
  cases hd : ServerRecord.decode P f.header f.body c.channel.schedule.serverState.transcriptHash with
  | ok record t =>
      simp only [hd] at hread
      rw [bind_of_ok (show onChannel (Channel.read P) c = _ from onPart_of_ok hread)]
      rfl
  | error e t =>
      simp only [hd] at hread
      rw [bind_of_error (show onChannel (Channel.read P) c = _ from onPart_of_error hread)]
      rfl

theorem readApplicationData_of_fetch_error {P : Primitives cs} {c : TlsConnection cs} {e : Stop}
    {i : Intake} (h : RecordReader.fetch c.channel.intake = .error e i) :
    readApplicationData P c = .error e { c with channel.intake := i } := by
  simp only [readApplicationData]
  rw [bind_of_error (show onChannel (Channel.read P) c = _ from
    onPart_of_error (Channel.read_of_fetch_error h))]

end TlsConnection

end GatoPskTls.Client
