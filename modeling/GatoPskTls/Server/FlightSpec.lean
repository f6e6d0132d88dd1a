import GatoPskTls.Rfc8446
import GatoPskTls.Server.Flight

/-!
# Server: what the record writers write

Each record writer succeeds exactly when its record fits, and then has written
that record behind the writer's position and fed its message to the transcript.
-/
namespace GatoPskTls.Server

open GatoPskTls Stateful BigEndian Splice

variable {cs : TlsCipherSuite}

namespace OutWriter

def written (w : OutWriter) (data : Bytes) : OutWriter :=
  ⟨splice w.buf w.pos data, w.pos + data.length⟩

def sink : Sink OutWriter UInt8 where
  valid := fun w => w.pos ≤ w.buf.length
  room := fun w => w.buf.length - w.pos
  put := written
  put_nil := fun w => by simp [written]
  put_put := fun {w u v} hw => by
    simp only [written, List.length_append, Nat.add_assoc]
    rw [splice_splice hw]
  valid_put := fun {w u} hw hu => by
    simp only [written]
    rw [splice_length (by omega)]
    omega
  room_put := fun {w u} hw hu => by
    simp only [written]
    rw [splice_length (by omega)]
    omega

@[simp] theorem sink_put : sink.put = written := rfl

@[simp] theorem written_pos (w : OutWriter) (u : Bytes) :
    (w.written u).pos = w.pos + u.length := rfl

theorem appends_append (data : Bytes) : sink.Appends (append data) data where
  ok := fun {w} hw hd => if_neg (by simp only [sink] at hw hd; omega)
  full := fun {w} hw hd => ⟨_, _, if_pos (by simp only [sink] at hw hd; omega)⟩

/-- A field inside what was written, filled in afterwards. -/
theorem patch_written {w : OutWriter} {k : Nat} {u data : Bytes} (hw : w.pos ≤ w.buf.length)
    (hk : k + data.length ≤ u.length) :
    patch (w.pos + k) data (w.written u) = .ok () (w.written (splice u k data)) := by
  simp only [patch, modify_apply, written]
  rw [splice_splice_inside hw hk, splice_length hk]

theorem since_written {w : OutWriter} {u v : Bytes} (hw : w.pos ≤ w.buf.length) :
    (w.written (u ++ v)).since (w.pos + u.length) = v := by
  have htake : (w.buf.take w.pos ++ u).length = w.pos + u.length := by simp; omega
  simp only [since, written, splice]
  rw [← List.append_assoc, List.append_assoc (_ ++ u), List.drop_left' htake,
    List.length_append, ← Nat.add_assoc, Nat.add_sub_cancel_left, List.take_left]

end OutWriter

open OutWriter

/-- A handshake message in the clear, with its record header. -/
def plaintextRecord (message : Bytes) : Bytes :=
  [ContentType.handshake.toU8, 0x03, 0x03] ++ sized 2 message

/-- A ServerHello message, which is also what a HelloRetryRequest is. -/
def serverHelloMessage (body : Bytes) : Bytes := [HandshakeType.serverHello.toU8] ++ sized 3 body

theorem serverHelloMessage_length (body : Bytes) :
    (serverHelloMessage body).length = 4 + body.length := by
  simp only [serverHelloMessage, List.length_append, sized_length, List.length_singleton]
  omega

theorem plaintextRecord_length (message : Bytes) :
    (plaintextRecord message).length = 5 + message.length := by
  simp only [plaintextRecord, List.length_append, sized_length, List.length_cons, List.length_nil]
  omega

/-- The two headers with their lengths blank, and then filled in. -/
theorem frame_serverHello (body : Bytes) :
    splice (splice ([ContentType.handshake.toU8, 0x03, 0x03, 0, 0] ++
        ([HandshakeType.serverHello.toU8, 0, 0, 0] ++ body)) 6 (bigEndian 3 body.length)) 3
      (bigEndian 2 (4 + body.length)) = plaintextRecord (serverHelloMessage body) := by
  rw [plaintextRecord, sized, serverHelloMessage_length]
  simp [splice, serverHelloMessage, sized, bigEndian]

/-- The body of a HelloRetryRequest. -/
def retryBody (sessionId : Bytes) (group : NamedGroup) : Bytes :=
  [0x03, 0x03] ++ HRR_SPECIAL_RANDOM ++ sized 1 sessionId ++ bigEndian 2 TLS_AES_128_GCM_SHA256 ++
    [0] ++ sized 2 (bigEndian 2 0x002b ++ sized 2 (bigEndian 2 0x0304) ++
      (bigEndian 2 0x0033 ++ sized 2 (bigEndian 2 group.asU16)))

def retryMessage (sessionId : Bytes) (group : NamedGroup) : Bytes :=
  serverHelloMessage (retryBody sessionId group)

def retryFieldsWire (sessionId : Bytes) : Bytes :=
  [0x03, 0x03] ++ (HRR_SPECIAL_RANDOM ++ ([UInt8.ofNat sessionId.length] ++ (sessionId ++
    (bigEndian 2 TLS_AES_128_GCM_SHA256 ++ [0]))))

def retryExtensionsWire (group : NamedGroup) : Bytes :=
  bigEndian 2 0x002b ++ (bigEndian 2 2 ++ (bigEndian 2 0x0304 ++ (bigEndian 2 0x0033 ++
    (bigEndian 2 2 ++ bigEndian 2 group.asU16))))

theorem appends_retryFields {sessionId : Bytes} (h : sessionId.length ≤ 32) :
    sink.Appends (appendRetryFields sessionId) (retryFieldsWire sessionId) := by
  unfold appendRetryFields
  rw [if_neg (by omega)]
  exact (appends_append _).bind <| (appends_append _).bind <| (appends_append _).bind <|
    (appends_append _).bind <| (appends_append _).bind (appends_append _)

theorem appends_retryExtensions (group : NamedGroup) :
    sink.Appends (appendRetryExtensions group) (retryExtensionsWire group) :=
  (appends_append _).bind <| (appends_append _).bind <| (appends_append _).bind <|
    (appends_append _).bind <| (appends_append _).bind (appends_append _)

theorem retryBody_eq (sessionId : Bytes) (group : NamedGroup) :
    retryBody sessionId group =
      retryFieldsWire sessionId ++ sized 2 (retryExtensionsWire group) := by
  simp [retryBody, retryFieldsWire, retryExtensionsWire, sized, bigEndian]

/-- The record with all its lengths blank, as it stands before the patches. -/
def blankRetry (sessionId : Bytes) (group : NamedGroup) : Bytes :=
  ((([ContentType.handshake.toU8, 0x03, 0x03, 0, 0] ++ [HandshakeType.serverHello.toU8, 0, 0, 0]) ++
    retryFieldsWire sessionId) ++ [0, 0]) ++ retryExtensionsWire group

theorem blankRetry_length (sessionId : Bytes) (group : NamedGroup) :
    (blankRetry sessionId group).length =
      (plaintextRecord (retryMessage sessionId group)).length := by
  rw [plaintextRecord_length, retryMessage, serverHelloMessage_length, retryBody_eq]
  simp only [blankRetry, List.length_append, sized_length, List.length_cons, List.length_nil]
  omega

theorem blankRetry_patched (sessionId : Bytes) (group : NamedGroup) :
    splice (splice (splice (blankRetry sessionId group) (9 + (retryFieldsWire sessionId).length)
        (bigEndian 2 (retryExtensionsWire group).length)) 6
          (bigEndian 3 (retryBody sessionId group).length)) 3
      (bigEndian 2 (4 + (retryBody sessionId group).length)) =
      plaintextRecord (retryMessage sessionId group) := by
  have hlist : splice (blankRetry sessionId group) (9 + (retryFieldsWire sessionId).length)
      (bigEndian 2 (retryExtensionsWire group).length) =
      [ContentType.handshake.toU8, 0x03, 0x03, 0, 0] ++
        ([HandshakeType.serverHello.toU8, 0, 0, 0] ++ retryBody sessionId group) := by
    have hpos : 9 + (retryFieldsWire sessionId).length =
        (([ContentType.handshake.toU8, 0x03, 0x03, 0, 0] ++
          [HandshakeType.serverHello.toU8, 0, 0, 0]) ++ retryFieldsWire sessionId).length := by
      simp only [List.length_append, List.length_cons, List.length_nil]
    rw [hpos, blankRetry, splice_append (by rw [bigEndian_length]; rfl), retryBody_eq, sized]
    simp only [List.append_assoc]
  rw [hlist, frame_serverHello, retryMessage]

theorem fits_left {u v : Bytes} {n : Nat} (h : (u ++ v).length ≤ n) : u.length ≤ n := by
  rw [List.length_append] at h
  omega

theorem emitHelloRetryRequest_of_fits {sessionId : Bytes} {group : NamedGroup} {w : OutWriter}
    (hw : w.pos ≤ w.buf.length) (hsid : sessionId.length ≤ 32)
    (hfit : (plaintextRecord (retryMessage sessionId group)).length ≤ sink.room w) :
    emitHelloRetryRequest sessionId group w =
      .ok (w.pos + 5) (w.written (plaintextRecord (retryMessage sessionId group))) := by
  rw [← blankRetry_length] at hfit
  -- the five appends, each behind what the earlier ones wrote
  have h₅ := (appends_retryExtensions group).ok_put hw hfit
  have h₄ := (appends_append _).ok_put hw (fits_left hfit)
  have h₃ := (appends_retryFields hsid).ok_put hw (fits_left (fits_left hfit))
  have h₂ := (appends_append _).ok_put hw (fits_left (fits_left (fits_left hfit)))
  have h₁ := (appends_append _).ok hw (fits_left (fits_left (fits_left (fits_left hfit))))
  have hbody : (retryBody sessionId group).length =
      (retryFieldsWire sessionId).length + 2 + (retryExtensionsWire group).length := by
    rw [retryBody_eq, List.length_append, sized_length, Nat.add_assoc]
  have hlen := blankRetry_length sessionId group
  rw [plaintextRecord_length, retryMessage, serverHelloMessage_length] at hlen
  have hp₁ := @patch_written w (9 + (retryFieldsWire sessionId).length) (blankRetry sessionId group)
    (bigEndian 2 (retryExtensionsWire group).length) hw (by rw [bigEndian_length]; omega)
  have hs₁ := @splice_length _ (blankRetry sessionId group) (9 + (retryFieldsWire sessionId).length)
    (bigEndian 2 (retryExtensionsWire group).length) (by rw [bigEndian_length]; omega)
  have hp₂ := @patch_written w 6 _ (bigEndian 3 (retryBody sessionId group).length) hw
    (by rw [hs₁, bigEndian_length]; omega)
  have hs₂ := @splice_length _ _ 6 (bigEndian 3 (retryBody sessionId group).length)
    (by rw [hs₁, bigEndian_length]; omega)
  have hp₃ := @patch_written w 3 _ (bigEndian 2 (4 + (retryBody sessionId group).length)) hw
    (by rw [hs₂, hs₁, bigEndian_length]; omega)
  rw [blankRetry_patched] at hp₃
  simp only [emitHelloRetryRequest, get_bind_apply, bind_of_ok h₁, bind_of_ok h₂, bind_of_ok h₃,
    bind_of_ok h₄, bind_of_ok h₅]
  -- the positions read in between, relative to the start of the record
  simp only [sink_put, written_pos, List.length_append, List.length_cons, List.length_nil,
    Nat.reduceAdd, Nat.add_sub_add_left, Nat.add_sub_cancel_left]
  rw [show 9 + (retryFieldsWire sessionId).length + 2 + (retryExtensionsWire group).length - 9 =
      (retryBody sessionId group).length by omega,
    show 9 + (retryFieldsWire sessionId).length + 2 + (retryExtensionsWire group).length -
      RECORD_HEADER_LEN = 4 + (retryBody sessionId group).length by
        simp only [RECORD_HEADER_LEN]; omega]
  exact (bind_of_ok hp₁).trans ((bind_of_ok hp₂).trans (bind_of_ok hp₃))

theorem emitHelloRetryRequest_eq_ok {sessionId : Bytes} {group : NamedGroup} {w w' : OutWriter}
    {n : Nat} (hw : w.pos ≤ w.buf.length) (hsid : sessionId.length ≤ 32) :
    emitHelloRetryRequest sessionId group w = .ok n w' ↔
      (plaintextRecord (retryMessage sessionId group)).length ≤ sink.room w ∧ n = w.pos + 5 ∧
        w' = w.written (plaintextRecord (retryMessage sessionId group)) := by
  constructor
  · intro h
    have hfit : (plaintextRecord (retryMessage sessionId group)).length ≤ sink.room w := by
      simp only [emitHelloRetryRequest, get_bind_apply, bind_eq_ok] at h
      obtain ⟨_, w₁, h₁, _, w₂, h₂, _, w₃, h₃, _, w₄, h₄, _, w₅, h₅, -⟩ := h
      obtain ⟨f₁, rfl⟩ := (appends_append _).of_ok hw h₁
      obtain ⟨f₂, rfl⟩ := ((appends_append _).eq_ok hw f₁).mp h₂
      obtain ⟨f₃, rfl⟩ := ((appends_retryFields hsid).eq_ok hw f₂).mp h₃
      obtain ⟨f₄, rfl⟩ := ((appends_append _).eq_ok hw f₃).mp h₄
      rw [← blankRetry_length]
      exact (((appends_retryExtensions group).eq_ok hw f₄).mp h₅).1
    rw [emitHelloRetryRequest_of_fits hw hsid hfit] at h
    cases h
    exact ⟨hfit, rfl, rfl⟩
  · rintro ⟨hfit, rfl, rfl⟩
    exact emitHelloRetryRequest_of_fits hw hsid hfit

theorem since_plaintextRecord {w : OutWriter} (hw : w.pos ≤ w.buf.length) (message : Bytes) :
    (w.written (plaintextRecord message)).since (w.pos + 5) = message := by
  have := @since_written w ([ContentType.handshake.toU8, 0x03, 0x03] ++ bigEndian 2 message.length)
    message hw
  simpa [plaintextRecord, sized] using this

namespace Desk

theorem onWriter_eq_ok {α : Type} {x : EStateM Stop OutWriter α} {d d' : Desk cs} {a : α} :
    onWriter x d = .ok a d' ↔ ∃ w, x d.writer = .ok a w ∧ d' = { d with writer := w } :=
  onPart_eq_ok

theorem onWriter_of_ok {α : Type} {x : EStateM Stop OutWriter α} {d : Desk cs} {w : OutWriter}
    {a : α} (h : x d.writer = .ok a w) : onWriter x d = .ok a { d with writer := w } :=
  onPart_of_ok h

theorem onSchedule_of_ok {α : Type} {x : KeySchedule.M cs α} {d : Desk cs} {ks : KeySchedule cs}
    {a : α} (h : x d.schedule = .ok a ks) : onSchedule x d = .ok a { d with schedule := ks } :=
  onPart_of_ok h

theorem onSchedule_of_error {α : Type} {x : KeySchedule.M cs α} {d : Desk cs} {ks : KeySchedule cs}
    {e : Stop} (h : x d.schedule = .error e ks) :
    onSchedule x d = .error e { d with schedule := ks } :=
  onPart_of_error h

theorem onWriter_eq_error {α : Type} {x : EStateM Stop OutWriter α} {d d' : Desk cs} {e : Stop}
    (h : onWriter x d = .error e d') : d'.schedule = d.schedule := by
  obtain ⟨w, -, rfl⟩ := onPart_eq_error.mp h
  rfl

end Desk

open Desk

/-- The schedule with its transcript replaced. -/
def withTranscript (ks : KeySchedule cs) (transcript : Bytes) : KeySchedule cs :=
  { ks with serverState.transcriptHash := transcript }

/-- The schedule after messages have been fed to its transcript. -/
def absorb (ks : KeySchedule cs) (messages : Bytes) : KeySchedule cs :=
  withTranscript ks (ks.serverState.transcriptHash ++ messages)

theorem writeHelloRetryRequestRecord_eq_ok {P : Primitives cs} {sessionId ch1 : Bytes}
    {group : NamedGroup} {d d' : Desk cs} (hw : d.writer.pos ≤ d.writer.buf.length)
    (hsid : sessionId.length ≤ 32) :
    writeHelloRetryRequestRecord P sessionId group ch1 d = .ok () d' ↔
      (plaintextRecord (retryMessage sessionId group)).length ≤ sink.room d.writer ∧
        d' = ⟨withTranscript d.schedule (messageHash P ch1 ++ retryMessage sessionId group),
          d.writer.written (plaintextRecord (retryMessage sessionId group))⟩ := by
  have hrest : rewriteTranscript P ch1 (d.writer.pos + 5) ⟨d.schedule,
      d.writer.written (plaintextRecord (retryMessage sessionId group))⟩ = .ok ()
      ⟨withTranscript d.schedule (messageHash P ch1 ++ retryMessage sessionId group),
        d.writer.written (plaintextRecord (retryMessage sessionId group))⟩ := by
    simp only [rewriteTranscript, get_bind_apply, since_plaintextRecord hw]
    rfl
  rw [writeHelloRetryRequestRecord, bind_eq_ok]
  constructor
  · rintro ⟨n, d₁, hdesk, h⟩
    obtain ⟨w, hemit, rfl⟩ := onWriter_eq_ok.mp hdesk
    obtain ⟨hfit, rfl, rfl⟩ := (emitHelloRetryRequest_eq_ok hw hsid).mp hemit
    rw [hrest] at h
    cases h
    exact ⟨hfit, rfl⟩
  · rintro ⟨hfit, rfl⟩
    exact ⟨_, _, onWriter_of_ok (emitHelloRetryRequest_of_fits hw hsid hfit), hrest⟩

theorem writeHelloRetryRequestRecord_eq_error {P : Primitives cs} {sessionId ch1 : Bytes}
    {group : NamedGroup} {d d' : Desk cs} {e : Stop}
    (h : writeHelloRetryRequestRecord P sessionId group ch1 d = .error e d') :
    d'.schedule = d.schedule := by
  rcases bind_eq_error.mp h with h | ⟨n, d₁, -, h⟩
  · exact onWriter_eq_error h
  · cases h

theorem encodeFrom_eq_ok {enc : CryptoBuffer.M Unit} {wire : Bytes} {w w' : OutWriter} {n : Nat}
    (henc : CryptoBuffer.Appends enc wire) :
    encodeFrom w.pos enc w = .ok n w' ↔
      wire.length ≤ sink.room w ∧ n = wire.length ∧ w' = w.written wire := by
  have hwf : (CryptoBuffer.wrap (w.buf.drop w.pos)).WF := by simp [CryptoBuffer.WF, CryptoBuffer.wrap]
  have hroom : (CryptoBuffer.wrap (w.buf.drop w.pos)).space = sink.room w := by
    simp [CryptoBuffer.space, CryptoBuffer.capacity, CryptoBuffer.wrap, sink]
  unfold encodeFrom
  by_cases hfit : wire.length ≤ sink.room w
  · rw [henc.ok hwf (by rw [CryptoBuffer.sink_room, hroom]; exact hfit)]
    have hbuf : w.buf.take w.pos ++ splice (w.buf.drop w.pos) 0 wire = splice w.buf w.pos wire := by
      simp [splice]
    simp [CryptoBuffer.appended, CryptoBuffer.wrap, hbuf, hfit, written, eq_comm]
  · obtain ⟨e, b, he⟩ := henc.full hwf (by rw [CryptoBuffer.sink_room, hroom]; omega)
    simp [he, hfit]

section ServerHello

variable {config : TlsServerConfig} {sessionId : Bytes} {idx : Nat} {mode : KexMode}
  {exts : List ServerHelloExtension}

/-- Which extensions a ServerHello carries. -/
theorem serverHelloExtensions_mem (h : serverHelloExtensions config idx mode = .ok exts) :
    (∀ v, .supportedVersions v ∈ exts ↔ v = ⟨TLS13⟩) ∧
    (∀ p, .preSharedKey p ∈ exts ↔ p = ⟨idx⟩) ∧
    (∀ k, .keyShare k ∈ exts ↔ (∃ share, mode = .pskDheKe share) ∧
      ∃ dhe, config.dheKeypair = some dhe ∧ k = ⟨⟨.x25519, dhe.publicKey.val⟩⟩) := by
  cases mode with
  | pskKe =>
      cases h
      exact ⟨fun v => by simp, fun p => by simp, fun k => by simp⟩
  | pskDheKe share =>
      simp only [serverHelloExtensions] at h
      split at h
      · cases h
      next dhe hdhe =>
        cases h
        exact ⟨fun v => by simp, fun p => by simp, fun k => by simp [hdhe]⟩

theorem serverHelloExtensions_short (h : serverHelloExtensions config idx mode = .ok exts) :
    exts.length ≤ 4 ∧ (exts.flatMap ServerHelloExtension.wire).length ≤ 52 := by
  cases mode with
  | pskKe =>
      cases h
      exact ⟨by simp, by simp [ServerHelloExtension.wire, ServerHelloExtension.dataWire]⟩
  | pskDheKe share =>
      simp only [serverHelloExtensions] at h
      split at h
      · cases h
      next dhe hdhe =>
        cases h
        have hlen : dhe.publicKey.val.length = 32 := dhe.publicKey.property
        exact ⟨by simp, by simp [ServerHelloExtension.wire, ServerHelloExtension.dataWire, hlen]⟩

/-- The ServerHello this server sends. -/
def serverHello (config : TlsServerConfig) (sessionId : Bytes) (exts : List ServerHelloExtension) :
    ServerHelloEmit :=
  { random := config.serverRandom, legacySessionIdEcho := sessionId,
    cipherSuite := TLS_AES_128_GCM_SHA256, extensions := exts }

theorem emitServerHello_of_fits {w : OutWriter} (hw : w.pos ≤ w.buf.length)
    (hsid : sessionId.length ≤ 32) (hexts : serverHelloExtensions config idx mode = .ok exts)
    (hfit : (plaintextRecord (serverHelloMessage (serverHello config sessionId exts).wire)).length ≤
      sink.room w) :
    emitServerHello config sessionId idx mode w = .ok (w.pos + 5)
      (w.written (plaintextRecord (serverHelloMessage (serverHello config sessionId exts).wire))) := by
  have henc := (serverHello config sessionId exts).appends_encode hsid
  set body := (serverHello config sessionId exts).wire
  rw [plaintextRecord_length, serverHelloMessage_length] at hfit
  have h₁ := (appends_append [ContentType.handshake.toU8, 0x03, 0x03, 0, 0]).ok hw
    (by simp only [List.length_cons, List.length_nil]; omega)
  have hhead : ([ContentType.handshake.toU8, 0x03, 0x03, 0, 0] ++
      [HandshakeType.serverHello.toU8, 0, 0, 0]).length ≤ sink.room w := by
    simp only [List.length_append, List.length_cons, List.length_nil]
    omega
  have h₂ := (appends_append [HandshakeType.serverHello.toU8, 0, 0, 0]).ok_put hw hhead
  have h₃ := (encodeFrom_eq_ok henc).mpr ⟨by rw [sink.room_put hw hhead]; simp; omega, rfl, rfl⟩
  rw [show (sink.put w _).written body = w.written _ from sink.put_put hw, List.append_assoc] at h₃
  set blank := [ContentType.handshake.toU8, 0x03, 0x03, 0, 0] ++
    ([HandshakeType.serverHello.toU8, 0, 0, 0] ++ body) with hblank
  have hlen : blank.length = 9 + body.length := by simp [hblank]; omega
  have hp₁ := @patch_written w 6 blank (bigEndian 3 body.length) hw (by rw [bigEndian_length]; omega)
  have hs₁ := @splice_length _ blank 6 (bigEndian 3 body.length) (by rw [bigEndian_length]; omega)
  have hp₂ := @patch_written w 3 _ (bigEndian 2 (4 + body.length)) hw
    (by rw [hs₁, bigEndian_length]; omega)
  rw [frame_serverHello] at hp₂
  simp only [emitServerHello, get_bind_apply, bind_of_ok h₁, bind_of_ok h₂, hexts, mapError_ok_eq,
    fromResult_ok_bind]
  refine (bind_of_ok h₃).trans ((bind_of_ok hp₁).trans ?_)
  rw [get_bind_apply, written_pos, hs₁, hlen, show w.pos + (9 + body.length) - w.pos -
    RECORD_HEADER_LEN = 4 + body.length by simp only [RECORD_HEADER_LEN]; omega]
  exact bind_of_ok hp₂

theorem emitServerHello_eq_ok {w w' : OutWriter} {n : Nat} (hw : w.pos ≤ w.buf.length)
    (hsid : sessionId.length ≤ 32) (hexts : serverHelloExtensions config idx mode = .ok exts) :
    emitServerHello config sessionId idx mode w = .ok n w' ↔
      (plaintextRecord (serverHelloMessage (serverHello config sessionId exts).wire)).length ≤
        sink.room w ∧ n = w.pos + 5 ∧
      w' = w.written (plaintextRecord
        (serverHelloMessage (serverHello config sessionId exts).wire)) := by
  constructor
  · intro h
    have henc := (serverHello config sessionId exts).appends_encode hsid
    have hfit : (plaintextRecord (serverHelloMessage
        (serverHello config sessionId exts).wire)).length ≤ sink.room w := by
      simp only [emitServerHello, get_bind_apply, hexts, mapError_ok_eq, fromResult_ok_bind,
        bind_eq_ok] at h
      obtain ⟨_, w₁, h₁, _, w₂, h₂, bodyLen, w₄, h₄, -⟩ := h
      obtain ⟨f₁, rfl⟩ := (appends_append _).of_ok hw h₁
      obtain ⟨f₂, rfl⟩ := ((appends_append _).eq_ok hw f₁).mp h₂
      have f₄ := ((encodeFrom_eq_ok henc).mp h₄).1
      rw [sink.room_put hw f₂] at f₄
      rw [plaintextRecord_length, serverHelloMessage_length]
      simp only [List.length_append, List.length_cons, List.length_nil] at f₂ f₄
      omega
    rw [emitServerHello_of_fits hw hsid hexts hfit] at h
    cases h
    exact ⟨hfit, rfl, rfl⟩
  · rintro ⟨hfit, rfl, rfl⟩
    exact emitServerHello_of_fits hw hsid hexts hfit

theorem writeServerHelloRecord_eq_ok {d d' : Desk cs} (hw : d.writer.pos ≤ d.writer.buf.length)
    (hsid : sessionId.length ≤ 32) (hexts : serverHelloExtensions config idx mode = .ok exts) :
    writeServerHelloRecord config sessionId idx mode d = .ok () d' ↔
      (plaintextRecord (serverHelloMessage (serverHello config sessionId exts).wire)).length ≤
        sink.room d.writer ∧
      d' = ⟨absorb d.schedule (serverHelloMessage (serverHello config sessionId exts).wire),
        d.writer.written (plaintextRecord
          (serverHelloMessage (serverHello config sessionId exts).wire))⟩ := by
  have hrest : absorbSince (d.writer.pos + 5) ⟨d.schedule, d.writer.written (plaintextRecord
      (serverHelloMessage (serverHello config sessionId exts).wire))⟩ = .ok ()
      ⟨absorb d.schedule (serverHelloMessage (serverHello config sessionId exts).wire),
        d.writer.written (plaintextRecord
          (serverHelloMessage (serverHello config sessionId exts).wire))⟩ := by
    simp only [absorbSince, get_bind_apply, since_plaintextRecord hw]
    rfl
  rw [writeServerHelloRecord, bind_eq_ok]
  constructor
  · rintro ⟨n, d₁, hdesk, h⟩
    obtain ⟨w, hemit, rfl⟩ := onWriter_eq_ok.mp hdesk
    obtain ⟨hfit, rfl, rfl⟩ := (emitServerHello_eq_ok hw hsid hexts).mp hemit
    rw [hrest] at h
    cases h
    exact ⟨hfit, rfl⟩
  · rintro ⟨hfit, rfl⟩
    exact ⟨_, _, onWriter_of_ok (emitServerHello_of_fits hw hsid hexts hfit), hrest⟩

theorem writeServerHelloRecord_extensions {d d' : Desk cs}
    (h : writeServerHelloRecord config sessionId idx mode d = .ok () d') :
    ∃ exts, serverHelloExtensions config idx mode = .ok exts := by
  obtain ⟨n, d₁, h, -⟩ := bind_eq_ok.mp h
  obtain ⟨w, h, -⟩ := onWriter_eq_ok.mp h
  simp only [emitServerHello, get_bind_apply, bind_eq_ok, fromResult_eq_ok] at h
  obtain ⟨_, w₁, -, _, w₂, -, exts, w₃, ⟨hexts, -⟩, -⟩ := h
  cases he : serverHelloExtensions config idx mode with
  | error e => simp [he] at hexts
  | ok exts => exact ⟨exts, rfl⟩

end ServerHello

/-- The ciphertext of a payload with its content type marker under a traffic state. -/
def sealedWith (P : Primitives cs) (s : KeyScheduleState cs) (payload : Bytes)
    (marker : ContentType) : Option Bytes :=
  P.aeadSeal s.key (KeyScheduleState.nonce s.counter s.iv)
    (protectedHeader (payload.length + 1 + cs.tagSize)) (payload ++ [marker.toU8])

/-- A protected record: its header and its ciphertext. -/
def protectedRecord (ciphertext : Bytes) : Bytes :=
  protectedHeader ciphertext.length ++ ciphertext

theorem protectedRecord_length (ciphertext : Bytes) :
    (protectedRecord ciphertext).length = 5 + ciphertext.length := by
  simp only [protectedRecord, protectedHeader, List.length_append, bigEndian_length,
    List.length_cons, List.length_nil]

theorem sealedWith_length {P : Primitives cs} {s : KeyScheduleState cs} {payload ciphertext : Bytes}
    {marker : ContentType} (h : sealedWith P s payload marker = some ciphertext) :
    ciphertext.length = payload.length + 1 + cs.tagSize := by
  rw [P.aeadSeal_length h, List.length_append, List.length_singleton]

/-- Sealing a region that has exactly room for the tag behind its plaintext. -/
theorem sealRegion_eq {P : Primitives cs} {s : KeyScheduleState cs} {aad plaintext spare : Bytes}
    (hspare : spare.length = cs.tagSize) :
    sealRegion P s aad (plaintext ++ spare) plaintext.length =
      match P.aeadSeal s.key (KeyScheduleState.nonce s.counter s.iv) aad plaintext with
      | none => .error (.err .cryptoError)
      | some ciphertext => .ok ciphertext := by
  set b := CryptoBuffer.wrapWithPos (plaintext ++ spare) plaintext.length with hb
  have hwf : b.WF := by simp [hb, CryptoBuffer.WF, CryptoBuffer.wrapWithPos]
  have hslice : b.asSlice = plaintext := by
    simp [hb, CryptoBuffer.asSlice, CryptoBuffer.wrapWithPos]
  have hspace : cs.tagSize ≤ b.space := by
    simp [hb, CryptoBuffer.space, CryptoBuffer.capacity, CryptoBuffer.wrapWithPos, hspare]
  simp only [sealRegion, KeyScheduleState.getKey, KeyScheduleState.getNonce, mapError_ok_eq,
    ok_bind, ← hb]
  cases hseal : P.aeadSeal s.key (KeyScheduleState.nonce s.counter s.iv) aad plaintext with
  | none => rw [CryptoBuffer.encryptInPlace_of_none (by rw [hslice, hseal])]
  | some ciphertext =>
      have hlen := P.aeadSeal_length hseal
      rw [CryptoBuffer.encryptInPlace_of_some hwf hspace (by rw [hslice, hseal])]
      have : (plaintext ++ spare).drop ciphertext.length = [] := by
        rw [List.drop_eq_nil_iff, List.length_append]
        omega
      simp [hb, CryptoBuffer.wrapWithPos, splice, this]

/-- The schedule after the server has sealed one record. -/
def bumpServer (ks : KeySchedule cs) : KeySchedule cs :=
  { ks with serverState.state.counter := ks.serverState.state.counter + 1 }

/-- The schedule after the server has opened one record. -/
def bumpClient (ks : KeySchedule cs) : KeySchedule cs :=
  { ks with clientState.state.counter := ks.clientState.state.counter + 1 }

theorem incrementServerCounter_eq (ks : KeySchedule cs) :
    incrementServerCounter ks = if CanCount ks.serverState.state then
      .ok () (bumpServer ks) else .error .panic ks := by
  simp only [incrementServerCounter, KeySchedule.onServer, onPart, incrementCounter_eq]
  by_cases h : CanCount ks.serverState.state
  · rw [if_pos h, if_pos h]
    rfl
  · rw [if_neg h, if_neg h]

theorem incrementClientCounter_eq (ks : KeySchedule cs) :
    incrementClientCounter ks = if CanCount ks.clientState.state then
      .ok () (bumpClient ks) else .error .panic ks := by
  simp only [incrementClientCounter, KeySchedule.onClient, onPart, incrementCounter_eq]
  by_cases h : CanCount ks.clientState.state
  · rw [if_pos h, if_pos h]
    rfl
  · rw [if_neg h, if_neg h]

section Sealing

variable {P : Primitives cs} {ks : KeySchedule cs} {w : OutWriter} {inner : Bytes}

/-- The writer once the inner message and its marker stand behind the blank header. -/
def innerWritten (w : OutWriter) (inner : Bytes) : OutWriter :=
  ⟨splice w.buf w.pos ([ContentType.applicationData.toU8, 0x03, 0x03, 0, 0] ++
    (inner ++ [ContentType.handshake.toU8])), w.pos + 5⟩

theorem patch_inner (hw : w.pos ≤ w.buf.length) :
    patch (w.pos + 5) (inner ++ [ContentType.handshake.toU8])
      (w.written [ContentType.applicationData.toU8, 0x03, 0x03, 0, 0]) =
      .ok () (innerWritten w inner) := by
  have := @splice_splice _ w.buf w.pos [ContentType.applicationData.toU8, 0x03, 0x03, 0, 0]
    (inner ++ [ContentType.handshake.toU8]) hw
  simp only [patch, modify_apply, written, innerWritten]
  rw [← this]
  rfl

theorem innerWritten_region (hw : w.pos ≤ w.buf.length)
    (hfit : 5 + (inner.length + 1 + cs.tagSize) ≤ sink.room w) :
    ∃ spare : Bytes, spare.length = cs.tagSize ∧
      ((innerWritten w inner).buf.drop (w.pos + 5)).take (inner.length + 1 + cs.tagSize) =
        (inner ++ [ContentType.handshake.toU8]) ++ spare := by
  simp only [sink] at hfit
  refine ⟨(w.buf.drop (w.pos + (inner.length + 6))).take cs.tagSize, by simp; omega, ?_⟩
  have hhead : (w.buf.take w.pos ++ [ContentType.applicationData.toU8, 0x03, 0x03, 0, 0]).length =
      w.pos + 5 := by simp; omega
  have hbuf : (innerWritten w inner).buf =
      (w.buf.take w.pos ++ [ContentType.applicationData.toU8, 0x03, 0x03, 0, 0]) ++
        ((inner ++ [ContentType.handshake.toU8]) ++ w.buf.drop (w.pos + (inner.length + 6))) := by
    simp [innerWritten, splice]
  rw [hbuf, List.drop_left' hhead, show inner.length + 1 + cs.tagSize =
    (inner ++ [ContentType.handshake.toU8]).length + cs.tagSize by simp, List.take_length_add_append]

theorem closeHandshakeRecord_eq {ciphertext : Bytes} (hw : w.pos ≤ w.buf.length)
    (hlen : inner.length + 1 ≤ ciphertext.length) :
    ∃ w', closeHandshakeRecord w.pos (w.pos + 5) ciphertext ⟨ks, innerWritten w inner⟩ =
      if CanCount ks.serverState.state then
        .ok () ⟨bumpServer ks, w.written (protectedRecord ciphertext)⟩
      else .error .panic ⟨ks, w'⟩ := by
  set blank := [ContentType.applicationData.toU8, 0x03, 0x03, 0, 0] ++ ciphertext with hblank
  have hover : splice (innerWritten w inner).buf (w.pos + 5) ciphertext =
      splice w.buf w.pos blank :=
    @splice_overwrite _ w.buf w.pos [ContentType.applicationData.toU8, 0x03, 0x03, 0, 0]
      (inner ++ [ContentType.handshake.toU8]) ciphertext hw (by simp; omega)
  have hplace : onWriter (modify fun w₁ =>
      ⟨splice w₁.buf (w.pos + 5) ciphertext, w.pos + 5 + ciphertext.length⟩)
      ⟨ks, innerWritten w inner⟩ = .ok () ⟨ks, w.written blank⟩ := by
    have hlength : blank.length = 5 + ciphertext.length := by simp [hblank]; omega
    refine onWriter_of_ok ?_
    simp only [modify_apply, hover, written, hlength, Nat.add_assoc]
  have hheader : splice blank 3 (bigEndian 2 ciphertext.length) = protectedRecord ciphertext := by
    simp [hblank, protectedRecord, protectedHeader, splice]
  have hpatch := @patch_written w 3 blank (bigEndian 2 ciphertext.length) hw (by simp [hblank])
  rw [hheader] at hpatch
  rw [closeHandshakeRecord, bind_of_ok hplace]
  have hinc := incrementServerCounter_eq ks
  refine ⟨w.written blank, ?_⟩
  split
  · next hc =>
    rw [if_pos hc] at hinc
    rw [bind_of_ok (onSchedule_of_ok (d := ⟨ks, w.written blank⟩) hinc)]
    exact onWriter_of_ok hpatch
  · next hc =>
    rw [if_neg hc] at hinc
    rw [bind_of_error (onSchedule_of_error (d := ⟨ks, w.written blank⟩) hinc)]

/-- From the inner message on: the schedule in every outcome, and the record on success. -/
theorem sealHandshakeRecord_eq (hw : w.pos ≤ w.buf.length)
    (hfit : 5 + (inner.length + 1 + cs.tagSize) ≤ sink.room w) :
    ∃ w', sealHandshakeRecord P w.pos (w.pos + 5) inner
      ⟨ks, w.written [ContentType.applicationData.toU8, 0x03, 0x03, 0, 0]⟩ =
      match sealedWith P ks.serverState.state inner .handshake with
      | none => .error (.err .cryptoError) ⟨absorb ks inner, w'⟩
      | some ciphertext =>
          if CanCount ks.serverState.state then
            .ok () ⟨bumpServer (absorb ks inner), w.written (protectedRecord ciphertext)⟩
          else .error .panic ⟨absorb ks inner, w'⟩ := by
  obtain ⟨spare, hspare, hregion⟩ := @innerWritten_region _ _ inner hw hfit
  have hroom := hfit
  simp only [sink] at hroom
  have hbuf : (innerWritten w inner).buf.length = w.buf.length :=
    splice_length (by simp; omega)
  have hseal := @sealRegion_eq cs P ks.serverState.state
    (protectedHeader (inner.length + 1 + cs.tagSize)) (inner ++ [ContentType.handshake.toU8]) spare
    hspare
  rw [← hregion, show (inner ++ [ContentType.handshake.toU8]).length = inner.length + 1 by simp] at hseal
  have hpatch : onWriter (patch (w.pos + 5) (inner ++ [ContentType.handshake.toU8]))
      ⟨ks, w.written [ContentType.applicationData.toU8, 0x03, 0x03, 0, 0]⟩ =
      .ok () ⟨ks, innerWritten w inner⟩ := onWriter_of_ok (patch_inner hw)
  have habsorb : onSchedule (KeySchedule.updateTranscript inner) ⟨ks, innerWritten w inner⟩ =
      .ok () ⟨absorb ks inner, innerWritten w inner⟩ := rfl
  simp only [sealHandshakeRecord, bind_of_ok hpatch, bind_of_ok habsorb, get_bind_apply]
  rw [if_neg (by rw [hbuf]; omega), show (absorb ks inner).serverState.state =
    ks.serverState.state from rfl, hseal, sealedWith]
  cases hct : P.aeadSeal ks.serverState.state.key (KeyScheduleState.nonce
      ks.serverState.state.counter ks.serverState.state.iv)
      (protectedHeader (inner.length + 1 + cs.tagSize)) (inner ++ [ContentType.handshake.toU8]) with
  | none => exact ⟨_, rfl⟩
  | some ciphertext =>
      have hlen : ciphertext.length = inner.length + 1 + cs.tagSize := sealedWith_length hct
      simp only [fromResult_ok_bind]
      exact closeHandshakeRecord_eq hw (by omega)

/-- An encoder stays inside the room it is given. -/
def InnerEncoder.Bounded (enc : InnerEncoder cs) : Prop :=
  ∀ room ks inner, enc room ks = .ok inner → inner.length ≤ room

/-- The record writer once its header is written, which is all that can fail before the
encoder runs. -/
theorem writeEncryptedHandshakeRecord_of_fits {enc : InnerEncoder cs} {d : Desk cs}
    (hw : d.writer.pos ≤ d.writer.buf.length) (hfit : 6 + cs.tagSize ≤ sink.room d.writer) :
    writeEncryptedHandshakeRecord P enc d =
      (do let inner ← fromResult
            ((enc (sink.room d.writer - (6 + cs.tagSize)) d.schedule).mapError .err)
          sealHandshakeRecord P d.writer.pos (d.writer.pos + 5) inner : Desk.M cs Unit)
        ⟨d.schedule, d.writer.written [ContentType.applicationData.toU8, 0x03, 0x03, 0, 0]⟩ := by
  have hhead : [ContentType.applicationData.toU8, 0x03, 0x03, 0, 0].length ≤ sink.room d.writer := by
    simp only [List.length_cons, List.length_nil]
    omega
  have happend : onWriter (append [ContentType.applicationData.toU8, 0x03, 0x03, 0, 0]) d =
      .ok () ⟨d.schedule, d.writer.written [ContentType.applicationData.toU8, 0x03, 0x03, 0, 0]⟩ :=
    onWriter_of_ok ((appends_append _).ok hw hhead)
  have hroom := sink.room_put hw hhead
  simp only [sink_put, List.length_cons, List.length_nil] at hroom
  simp only [writeEncryptedHandshakeRecord, get_bind_apply, bind_of_ok happend]
  change (if sink.room (d.writer.written [ContentType.applicationData.toU8, 0x03, 0x03, 0, 0]) <
    1 + cs.tagSize then _ else _ : Desk.M cs Unit) _ = _
  rw [if_neg (by omega)]
  rw [show sink.room d.writer - (6 + cs.tagSize) =
    sink.room (d.writer.written [ContentType.applicationData.toU8, 0x03, 0x03, 0, 0]) - 1 -
      cs.tagSize by omega]
  rfl

theorem writeEncryptedHandshakeRecord_fits {enc : InnerEncoder cs} {d d' : Desk cs}
    (hw : d.writer.pos ≤ d.writer.buf.length)
    (h : writeEncryptedHandshakeRecord P enc d = .ok () d') : 6 + cs.tagSize ≤ sink.room d.writer := by
  simp only [writeEncryptedHandshakeRecord, get_bind_apply, bind_eq_ok] at h
  obtain ⟨_, d₁, h₁, h⟩ := h
  obtain ⟨w, happend, rfl⟩ := onWriter_eq_ok.mp h₁
  obtain ⟨hfit, rfl⟩ := (appends_append _).of_ok hw happend
  have hroom := sink.room_put hw hfit
  by_contra hc
  change (if sink.room (d.writer.written [ContentType.applicationData.toU8, 0x03, 0x03, 0, 0]) <
    1 + cs.tagSize then _ else _ : Desk.M cs Unit) _ = _ at h
  simp only [sink_put, List.length_cons, List.length_nil] at hroom hfit
  rw [if_pos (by omega)] at h
  cases h

theorem writeEncryptedHandshakeRecord_eq_ok {enc : InnerEncoder cs} (henc : enc.Bounded)
    {d d' : Desk cs} (hw : d.writer.pos ≤ d.writer.buf.length) :
    writeEncryptedHandshakeRecord P enc d = .ok () d' ↔
      6 + cs.tagSize ≤ sink.room d.writer ∧
      ∃ inner ciphertext, enc (sink.room d.writer - (6 + cs.tagSize)) d.schedule = .ok inner ∧
        sealedWith P d.schedule.serverState.state inner .handshake = some ciphertext ∧
        CanCount d.schedule.serverState.state ∧
        d' = ⟨bumpServer (absorb d.schedule inner), d.writer.written (protectedRecord ciphertext)⟩ := by
  by_cases hfit : 6 + cs.tagSize ≤ sink.room d.writer
  · rw [writeEncryptedHandshakeRecord_of_fits hw hfit]
    cases hinner : enc (sink.room d.writer - (6 + cs.tagSize)) d.schedule with
    | error e => simp
    | ok inner =>
        have hlen := henc _ _ _ hinner
        obtain ⟨w', hseal⟩ := @sealHandshakeRecord_eq cs P d.schedule d.writer inner hw (by omega)
        simp only [mapError_ok_eq, fromResult_ok_bind, hseal]
        cases hct : sealedWith P d.schedule.serverState.state inner .handshake with
        | none => simp [hct]
        | some ciphertext =>
            by_cases hc : CanCount d.schedule.serverState.state
            · simp [hc, hct, hfit, eq_comm]
            · simp [hc]
  · exact ⟨fun h => absurd (writeEncryptedHandshakeRecord_fits hw h) hfit, fun h => absurd h.1 hfit⟩

end Sealing

def encryptedExtensionsMessage : Bytes := [HandshakeType.encryptedExtensions.toU8] ++ sized 3 [0, 0]

def finishedMessage (verify : GenericArray cs.hashLen) : Bytes :=
  [HandshakeType.finished.toU8] ++ sized 3 verify.val

theorem finishedMessage_eq (verify : GenericArray cs.hashLen) :
    finishedMessage verify = [HandshakeType.finished.toU8, 0, UInt8.ofNat (cs.hashLen / 256),
      UInt8.ofNat cs.hashLen] ++ verify.val := by
  rw [finishedMessage, sized, verify.property]
  cases cs <;> rfl

theorem finishedMessage_length (verify : GenericArray cs.hashLen) :
    (finishedMessage verify).length = 4 + cs.hashLen := by
  rw [finishedMessage_eq, List.length_append, verify.property]
  rfl

theorem encodeEncryptedExtensions_eq_ok {room : Nat} {ks : KeySchedule cs} {inner : Bytes} :
    encodeEncryptedExtensions room ks = .ok inner ↔
      6 ≤ room ∧ inner = encryptedExtensionsMessage := by
  have hmessage : encryptedExtensionsMessage =
      [HandshakeType.encryptedExtensions.toU8, 0, 0, 2, 0, 0] := rfl
  rw [encodeEncryptedExtensions, hmessage]
  by_cases h : room < HANDSHAKE_HEADER_LEN + 2
  · have : ¬6 ≤ room := by simp only [HANDSHAKE_HEADER_LEN] at h; omega
    simp [h, this]
  · have : 6 ≤ room := by simp only [HANDSHAKE_HEADER_LEN] at h; omega
    simp [h, this, eq_comm]

theorem encodeServerFinished_eq_ok {P : Primitives cs} {room : Nat} {ks : KeySchedule cs}
    {inner : Bytes} {prk : GenericArray cs.hashLen}
    (hsecret : ks.serverState.state.trafficSecret = .initialized prk) :
    encodeServerFinished P room ks = .ok inner ↔ 4 + cs.hashLen ≤ room ∧
      inner = finishedMessage (Rfc8446.finishedMac P prk ks.serverState.transcriptHash) := by
  have hfinished : ks.createServerFinished P =
      .ok ⟨Rfc8446.finishedMac P prk ks.serverState.transcriptHash, none⟩ := by
    rw [KeySchedule.createServerFinished, hsecret, KeySchedule.finishedMac_eq]
    rfl
  rw [encodeServerFinished, hfinished, finishedMessage_eq]
  by_cases h : room < HANDSHAKE_HEADER_LEN + cs.hashLen
  · have : ¬4 + cs.hashLen ≤ room := by simp only [HANDSHAKE_HEADER_LEN] at h; omega
    simp [h, this]
  · have : 4 + cs.hashLen ≤ room := by simp only [HANDSHAKE_HEADER_LEN] at h; omega
    simp [h, this, eq_comm]

theorem encodeEncryptedExtensions_bounded :
    (encodeEncryptedExtensions : InnerEncoder cs).Bounded := by
  intro room ks inner h
  obtain ⟨hroom, rfl⟩ := encodeEncryptedExtensions_eq_ok.mp h
  exact hroom

theorem encodeServerFinished_bounded (P : Primitives cs) : (encodeServerFinished P).Bounded := by
  intro room ks inner h
  cases hs : ks.serverState.state.trafficSecret with
  | uninitialized =>
      rw [encodeServerFinished, KeySchedule.createServerFinished, KeySchedule.finishedMac, hs,
        Secret.makeExpandedHkdfLabel_uninitialized] at h
      split at h <;> cases h
  | initialized prk =>
      obtain ⟨hroom, rfl⟩ := (encodeServerFinished_eq_ok hs).mp h
      rw [finishedMessage_length]
      exact hroom

end GatoPskTls.Server
