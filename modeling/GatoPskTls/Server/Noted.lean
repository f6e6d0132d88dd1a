import GatoPskTls.ClientHelloSafety
import GatoPskTls.Lib.Epochs
import GatoPskTls.Server.Calls
import GatoPskTls.Server.WriterSafety

/-!
# Server: what a session notes

The operations of a session once more, with their notes: what they ask of indices, slices, sums
and length fields, the key and the nonce of every AEAD encryption that succeeds, and what every
traffic secret for sending is derived from when it is installed. What becomes of a note is a
parameter. Erasing the notes gives the operations back, so they are those of the session itself,
also of calls that fail halfway.
-/
namespace GatoPskTls.Server

open GatoPskTls Stateful BigEndian Splice Tracing Traced Demands

variable {cs : TlsCipherSuite} {δ σ α ε : Type}

/-- What a traffic secret is derived from. The transcript stands for its hash. -/
structure Derivation (cs : TlsCipherSuite) where
  prk : GenericArray cs.hashLen
  label : Label
  transcript : Bytes
  deriving DecidableEq

namespace Derivation

/-- What a secret that is installed now is derived from. -/
def ofSchedule (P : Primitives cs) (ikm : Bytes) (label : Label) (ks : KeySchedule cs) : Derivation cs :=
  ⟨P.extract ks.shared.secret.val ikm, label, ks.serverState.transcriptHash⟩

def secret (P : Primitives cs) (d : Derivation cs) : GenericArray cs.hashLen :=
  Rfc8446.deriveSecret P d.prk d.label d.transcript

def key (P : Primitives cs) (d : Derivation cs) : GenericArray cs.keyLen := Rfc8446.trafficKey P (d.secret P)

def iv (P : Primitives cs) (d : Derivation cs) : GenericArray cs.ivLen := Rfc8446.trafficIv P (d.secret P)

end Derivation

/-- An encryption under a key and a nonce. -/
abbrev Encryption (cs : TlsCipherSuite) := GenericArray cs.keyLen × GenericArray cs.ivLen

abbrev Deed (cs : TlsCipherSuite) := Epochs.Deed (Derivation cs) (Encryption cs)

/-- What becomes of a note. -/
structure Notes (cs : TlsCipherSuite) (δ : Type) where
  asks : List Demand → List δ
  uses : Encryption cs → List δ
  installs : Derivation cs → List δ

namespace Notes

/-- What is asked. -/
def demands : Notes cs Demand := ⟨fun l => l, fun _ => [], fun _ => []⟩

/-- What is encrypted and installed. -/
def deeds : Notes cs (Deed cs) := ⟨fun _ => [], fun u => [.use u], fun d => [.install d]⟩

/-- A computation that only asks. -/
def asked (n : Notes cs δ) (x : Traced Demand ε σ α) : Traced δ ε σ α := x.relabel n.asks

@[simp] theorem erase_asked (n : Notes cs δ) (x : Traced Demand ε σ α) : (n.asked x).erase = x.erase :=
  erase_relabel _ _

end Notes

namespace Noted

open GatoPskTls.Checked (ParserM nonceDemands orInvalid)

abbrev ScheduleM (cs : TlsCipherSuite) (δ : Type) := Traced δ Stop (KeySchedule cs)
abbrev DeskM (cs : TlsCipherSuite) (δ : Type) := Traced δ Stop (Desk cs)
abbrev SessionM (cs : TlsCipherSuite) (δ : Type) := Traced δ Stop (Session cs)

def onWriter (x : Traced δ Stop OutWriter α) : DeskM cs δ α :=
  .onPart (·.writer) (fun d w => { d with writer := w }) x

def onSchedule (x : ScheduleM cs δ α) : DeskM cs δ α :=
  .onPart (·.schedule) (fun d ks => { d with schedule := ks }) x

def onSession (x : ScheduleM cs δ α) : SessionM cs δ α :=
  .onPart (·.schedule) (fun s ks => { s with schedule := ks }) x

@[simp] theorem erase_onWriter (x : Traced δ Stop OutWriter α) :
    (onWriter x : DeskM cs δ α).erase = Desk.onWriter x.erase := erase_onPart _ _ x

@[simp] theorem erase_onSchedule (x : ScheduleM cs δ α) :
    (onSchedule x).erase = Desk.onSchedule x.erase := erase_onPart _ _ x

@[simp] theorem erase_onSession (x : ScheduleM cs δ α) :
    (onSession x).erase = Session.onSchedule x.erase := erase_onPart _ _ x

/-- The length fields of an HKDF label. -/
def labelDemands (n : Nat) (label : Label) (contextLen : Nat) : List Demand :=
  [.narrow 16 n, .narrow 8 label.bytes.length, .narrow 8 (6 + label.bytes.length),
    .narrow 8 contextLen]

def deriveDemands (cs : TlsCipherSuite) (label : Label) : List Demand :=
  labelDemands cs.hashLen label cs.hashLen

def finishedDemands (cs : TlsCipherSuite) : List Demand := labelDemands cs.hashLen .finished 0

def trafficDemands (cs : TlsCipherSuite) (label : Label) : List Demand :=
  deriveDemands cs label ++ (labelDemands cs.keyLen .key 0 ++ labelDemands cs.ivLen .iv 0)

/-- `initialize_early_secret`. -/
def earlyDemands (cs : TlsCipherSuite) : List Demand :=
  deriveDemands cs .extBinder ++ deriveDemands cs .derived

/-- `initialize_handshake_secret` and `initialize_master_secret`. -/
def advanceDemands (cs : TlsCipherSuite) (clientLabel serverLabel : Label) : List Demand :=
  trafficDemands cs clientLabel ++ (trafficDemands cs serverLabel ++ deriveDemands cs .derived)

section Flight

variable (n : Notes cs δ) (P : Primitives cs)

/-- The step `x` of the key schedule installs the secrets with these labels. -/
def installing (ikm : Bytes) (clientLabel serverLabel : Label) (x : KeySchedule.M cs Unit) :
    ScheduleM cs δ Unit := do
  let ks ← bare get
  n.asked (demand (advanceDemands cs clientLabel serverLabel))
  bare (Session.orCryptoError x)
  note (n.installs (.ofSchedule P ikm serverLabel ks))

@[simp] theorem erase_installing (ikm : Bytes) (clientLabel serverLabel : Label)
    (x : KeySchedule.M cs Unit) :
    (installing n P ikm clientLabel serverLabel x).erase = Session.orCryptoError x := by
  simp only [installing, erase_bind, erase_bare, Notes.erase_asked, erase_demand, erase_note, pure_bind]
  exact bind_pure (Session.orCryptoError x)

def installHandshakeKeys (X : X25519) (config : TlsServerConfig) : KexMode → ScheduleM cs δ Unit
  | .pskKe => installing n P (KeySchedule.zero cs) .clientHandshakeTraffic .serverHandshakeTraffic
      (KeySchedule.initializeHandshakeSecretPskKe P)
  | .pskDheKe clientPub =>
      match config.dheKeypair with
      | none => bare (throw (.err .internalError))
      | some dhe =>
          if h : clientPub.length = X25519_LEN then do
            n.asked (demand [.copy X25519_LEN clientPub.length])
            let shared := X.mult dhe.secret ⟨clientPub, h⟩
            if shared.val.all (· == 0) then bare (throw (.err (fatal .illegalParameter)))
            else
              installing n P shared.val .clientHandshakeTraffic .serverHandshakeTraffic
                (KeySchedule.initializeHandshakeSecret P shared.val)
          else bare (throw (.err (fatal .illegalParameter)))

theorem erase_installHandshakeKeys (X : X25519) (config : TlsServerConfig) (mode : KexMode) :
    (installHandshakeKeys n P X config mode).erase = Session.installHandshakeKeys P X config mode := by
  cases mode with
  | pskKe => exact erase_installing n P _ _ _ _
  | pskDheKe clientPub =>
      simp only [installHandshakeKeys, Session.installHandshakeKeys]
      cases config.dheKeypair with
      | none => rfl
      | some dhe =>
          dsimp only
          split
          · simp only [erase_bind, Notes.erase_asked, erase_demand, pure_bind, erase_ite,
              erase_bare, erase_installing]
          · rfl

/-- The AEAD's key and nonce are noted where it gets them. -/
def encryptInPlace (key : GenericArray cs.keyLen) (nonce : GenericArray cs.ivLen) (aad : Bytes) :
    Traced δ TlsError CryptoBuffer Unit := do
  n.asked (GatoPskTls.Checked.encryptInPlace P key nonce aad)
  note (n.uses (key, nonce))

/-- A region that starts with the plaintext, as a buffer of its own. -/
def inRegion (region : Bytes) (plaintextLen : Nat) (x : Traced δ TlsError CryptoBuffer Unit) :
    Traced δ Stop σ Bytes := fun s =>
  match x (.wrapWithPos region plaintextLen) with
  | (.error _ _, l) => (.error (.err .cryptoError) s, l)
  | (.ok _ b, l) => (.ok b.buf s, l)

theorem inRegion_triple {region : Bytes} {plaintextLen : Nat} {x : Traced δ TlsError CryptoBuffer Unit}
    {pre : List δ → σ → Prop} {post : Bytes → List δ → σ → Prop} {fail : Stop → List δ → σ → Prop}
    (h : ∀ t, Triple (fun l b => b = .wrapWithPos region plaintextLen ∧ pre l t) x
      (fun _ l b => post b.buf l t) fun _ l _ => fail (.err .cryptoError) l t) :
    Triple pre (inRegion region plaintextLen x) post fail := by
  intro l t ht
  have hends := h t l _ ⟨rfl, ht⟩
  simp only [inRegion]
  rcases hrun : x (.wrapWithPos region plaintextLen) with ⟨r, l'⟩
  rw [hrun] at hends
  cases r with
  | ok u b => exact hends
  | error e b => exact hends

def sealRegion (s : KeyScheduleState cs) (aad region : Bytes) (plaintextLen : Nat) :
    Traced δ Stop σ Bytes := do
  let key ← bare (fromResult (s.getKey.mapError .err))
  n.asked (demand (nonceDemands cs))
  let nonce ← bare (fromResult (s.getNonce.mapError .err))
  inRegion region plaintextLen (encryptInPlace n P key nonce aad)

@[simp] theorem erase_sealRegion (s : KeyScheduleState cs) (aad region : Bytes) (plaintextLen : Nat) :
    (sealRegion n P s aad region plaintextLen : Traced δ Stop σ Bytes).erase =
      fromResult (Server.sealRegion P s aad region plaintextLen) := by
  have hencrypt : ∀ key nonce, (encryptInPlace n P key nonce aad).erase =
      CryptoBuffer.encryptInPlace P key nonce aad := by
    intro key nonce
    simp only [encryptInPlace, erase_bind, Notes.erase_asked, erase_note]
    exact bind_pure (CryptoBuffer.encryptInPlace P key nonce aad)
  funext t
  have hrun := congrFun (hencrypt s.key (KeyScheduleState.nonce s.counter s.iv))
    (.wrapWithPos region plaintextLen)
  change (inRegion region plaintextLen (encryptInPlace n P s.key
    (KeyScheduleState.nonce s.counter s.iv) aad) t).1 = _
  simp only [inRegion, Server.sealRegion, KeyScheduleState.getKey, KeyScheduleState.getNonce,
    mapError_ok_eq, ok_bind, ← hrun]
  simp only [erase]
  rcases encryptInPlace n P s.key (KeyScheduleState.nonce s.counter s.iv) aad
    (.wrapWithPos region plaintextLen) with ⟨r, l⟩
  cases r with
  | ok u b => rfl
  | error e b => rfl

/-- Between the inner message and the AEAD: the marker, the message for the transcript, and the
length of the record. -/
def markerDemands (cs : TlsCipherSuite) (cap innerStart innerLen : Nat) : List Demand :=
  [.plus innerStart innerLen, .index (innerStart + innerLen) cap, .plus innerLen 1,
    .slice innerStart (innerStart + innerLen) cap, .plus (innerLen + 1) cs.tagSize,
    .narrow 16 (innerLen + 1 + cs.tagSize), .plus innerStart (innerLen + 1 + cs.tagSize)]

def closeHandshakeRecord (recordStart innerStart : Nat) (ciphertext : Bytes) :
    DeskM cs Demand Unit := do
  onWriter (bare (modify fun w =>
    { buf := splice w.buf innerStart ciphertext, pos := innerStart + ciphertext.length }))
  onSchedule (bare incrementServerCounter)
  onWriter (Checked.patch (recordStart + 3) (bigEndian 2 ciphertext.length))

@[simp] theorem erase_closeHandshakeRecord (recordStart innerStart : Nat) (ciphertext : Bytes) :
    (closeHandshakeRecord recordStart innerStart ciphertext : DeskM cs Demand Unit).erase =
      Server.closeHandshakeRecord recordStart innerStart ciphertext := by
  simp only [closeHandshakeRecord, erase_bind, erase_bare, erase_onWriter, erase_onSchedule,
    Checked.erase_patch]
  rfl

def sealHandshakeRecord (recordStart innerStart : Nat) (inner : Bytes) : DeskM cs δ Unit := do
  n.asked (demandAt fun d => markerDemands cs d.writer.buf.length innerStart inner.length)
  bare (Desk.onWriter (OutWriter.patch innerStart (inner ++ [ContentType.handshake.toU8])))
  bare (Desk.onSchedule (KeySchedule.updateTranscript inner))
  let d ← bare get
  let plaintextLen := inner.length + 1
  let ciphertextLen := plaintextLen + cs.tagSize
  if innerStart + ciphertextLen > d.writer.buf.length then bare (throw (.err .insufficientSpace))
  else do
    let region := (d.writer.buf.drop innerStart).take ciphertextLen
    n.asked (demand [.slice innerStart (innerStart + ciphertextLen) d.writer.buf.length])
    let ciphertext ← sealRegion n P d.schedule.serverState.state (protectedHeader ciphertextLen)
      region plaintextLen
    n.asked (closeHandshakeRecord recordStart innerStart ciphertext)

theorem erase_sealHandshakeRecord (recordStart innerStart : Nat) (inner : Bytes) :
    (sealHandshakeRecord n P recordStart innerStart inner).erase =
      Server.sealHandshakeRecord P recordStart innerStart inner := by
  simp only [sealHandshakeRecord, erase_bind, erase_bare, Notes.erase_asked, erase_demand,
    erase_demandAt, erase_ite, erase_sealRegion, erase_closeHandshakeRecord, pure_bind]
  rfl

/-- A message encoder with what it asks of the slice it is given. -/
structure TracedEncoder (cs : TlsCipherSuite) where
  encode : InnerEncoder cs
  asks : (room : Nat) → List Demand

def encryptedExtensions : TracedEncoder cs where
  encode := encodeEncryptedExtensions
  asks room := .plus HANDSHAKE_HEADER_LEN 2 :: if room < HANDSHAKE_HEADER_LEN + 2 then []
    else (List.range 6).map fun i => .index i room

def serverFinished (P : Primitives cs) : TracedEncoder cs where
  encode := encodeServerFinished P
  asks room := .plus HANDSHAKE_HEADER_LEN cs.hashLen ::
    if room < HANDSHAKE_HEADER_LEN + cs.hashLen then []
    else finishedDemands cs ++ ((List.range 4).map (fun i => .index i room) ++
      [.narrow 16 cs.hashLen, .slice HANDSHAKE_HEADER_LEN (HANDSHAKE_HEADER_LEN + cs.hashLen) room,
        .copy (HANDSHAKE_HEADER_LEN + cs.hashLen - HANDSHAKE_HEADER_LEN) cs.hashLen])

/-- The room behind the header, and the slice for the encoder. -/
def roomDemands (cs : TlsCipherSuite) (cap innerStart remaining : Nat) : List Demand :=
  [.minus remaining 1, .minus (remaining - 1) cs.tagSize,
    .plus innerStart (remaining - 1 - cs.tagSize),
    .slice innerStart (innerStart + (remaining - 1 - cs.tagSize)) cap]

def writeEncryptedHandshakeRecord (innerEncoder : TracedEncoder cs) : DeskM cs δ Unit := do
  let recordStart := (← bare get : Desk cs).writer.pos
  n.asked (onWriter (Checked.append [ContentType.applicationData.toU8, 0x03, 0x03, 0, 0]))
  let d ← bare get
  let innerStart := d.writer.pos
  let remaining := d.writer.buf.length - innerStart
  n.asked (demand [.plus 1 cs.tagSize])
  if remaining < 1 + cs.tagSize then bare (throw (.err .insufficientSpace))
  else do
    n.asked (demand (roomDemands cs d.writer.buf.length innerStart remaining ++
      innerEncoder.asks (remaining - 1 - cs.tagSize)))
    let inner ← bare (fromResult
      ((innerEncoder.encode (remaining - 1 - cs.tagSize) d.schedule).mapError .err))
    sealHandshakeRecord n P recordStart innerStart inner

theorem erase_writeEncryptedHandshakeRecord (innerEncoder : TracedEncoder cs) :
    (writeEncryptedHandshakeRecord n P innerEncoder).erase =
      Server.writeEncryptedHandshakeRecord P innerEncoder.encode := by
  simp only [writeEncryptedHandshakeRecord, erase_bind, erase_bare, Notes.erase_asked, erase_demand,
    erase_onWriter, Checked.erase_append, erase_ite, erase_sealHandshakeRecord, pure_bind]
  rfl

/-- `&writer.buf[start..writer.pos]`. -/
def sinceDemands (start : Nat) (d : Desk cs) : List Demand :=
  [.slice start d.writer.pos d.writer.buf.length]

def rewriteTranscript (ch1HandshakeMessage : Bytes) (hsHeaderPos : Nat) : DeskM cs Demand Unit :=
  asking (fun d => .narrow 16 cs.hashLen :: sinceDemands hsHeaderPos d)
    (Server.rewriteTranscript P ch1HandshakeMessage hsHeaderPos)

def absorbSince (hsHeaderPos : Nat) : DeskM cs Demand Unit :=
  asking (sinceDemands hsHeaderPos) (Server.absorbSince hsHeaderPos)

def writeHelloRetryRequestRecord (legacySessionIdEcho : Bytes) (selectedGroup : NamedGroup)
    (ch1HandshakeMessage : Bytes) : DeskM cs Demand Unit := do
  let hsHeaderPos ← onWriter (Checked.emitHelloRetryRequest legacySessionIdEcho selectedGroup)
  rewriteTranscript P ch1HandshakeMessage hsHeaderPos

def writeServerHelloRecord (config : TlsServerConfig) (legacySessionIdEcho : Bytes)
    (selectedIdx : Nat) (mode : KexMode) : DeskM cs Demand Unit := do
  let hsHeaderPos ← onWriter (Checked.emitServerHello config legacySessionIdEcho selectedIdx mode)
  absorbSince hsHeaderPos

theorem erase_writeHelloRetryRequestRecord (legacySessionIdEcho : Bytes) (selectedGroup : NamedGroup)
    (ch1HandshakeMessage : Bytes) :
    (writeHelloRetryRequestRecord P legacySessionIdEcho selectedGroup ch1HandshakeMessage).erase =
      Server.writeHelloRetryRequestRecord P legacySessionIdEcho selectedGroup ch1HandshakeMessage := by
  simp only [writeHelloRetryRequestRecord, erase_bind, erase_onWriter,
    Checked.erase_emitHelloRetryRequest]
  rfl

theorem erase_writeServerHelloRecord (config : TlsServerConfig) (legacySessionIdEcho : Bytes)
    (selectedIdx : Nat) (mode : KexMode) :
    (writeServerHelloRecord config legacySessionIdEcho selectedIdx mode : DeskM cs Demand Unit).erase =
      Server.writeServerHelloRecord config legacySessionIdEcho selectedIdx mode := by
  simp only [writeServerHelloRecord, erase_bind, erase_onWriter, Checked.erase_emitServerHello]
  rfl

def writeFlight (X : X25519) (config : TlsServerConfig) (offer : Offer) (mode : KexMode) :
    DeskM cs δ Unit := do
  n.asked (writeServerHelloRecord config offer.hello.legacySessionId offer.selectedIdx mode)
  onSchedule (installHandshakeKeys n P X config mode)
  writeEncryptedHandshakeRecord n P encryptedExtensions
  writeEncryptedHandshakeRecord n P (serverFinished P)

theorem erase_writeFlight (X : X25519) (config : TlsServerConfig) (offer : Offer) (mode : KexMode) :
    (writeFlight n P X config offer mode).erase = Session.writeFlight P X config offer mode := by
  simp only [writeFlight, erase_bind, Notes.erase_asked, erase_writeServerHelloRecord,
    erase_onSchedule, erase_installHandshakeKeys, erase_writeEncryptedHandshakeRecord]
  rfl

end Flight

section Hello

variable (n : Notes cs δ) (P : Primitives cs)

/-- The pinned session id is compared with a slice of its field. -/
def ch2Demands (hrr : HrrState) : List Demand :=
  if hrr.sent then [.slice 0 hrr.ch1SessionIdLen.toNat 32] else []

/-- The binder at the index of our identity. -/
def identityDemands (hello : ClientHelloRef) (config : TlsServerConfig) : List Demand :=
  match preSharedKey hello with
  | none => []
  | some pskExt =>
      match pskExt.identities.findIdx? (· == config.pskIdentity) with
      | none => []
      | some idx => [.narrow 16 idx, .index idx pskExt.binders.length]

def examineDemands (msg : Bytes) (config : TlsServerConfig) (hrr : HrrState) : List Demand :=
  let run := GatoPskTls.Checked.parse CLIENT_HELLO_MAX_EXTENSIONS (ParseBuffer.new msg)
  run.2 ++ match run.1 with
    | .ok hello _ => ch2Demands hrr ++ identityDemands hello config
    | .error _ _ => []

def examine (msg : Bytes) (config : TlsServerConfig) : SessionM cs Demand Offer :=
  asking (fun s => examineDemands msg config s.hrrState)
    (do fromResult (Server.examine msg config (← get).hrrState))

/-- What was written is a slice of `out`. -/
def writing (out : Bytes) (x : DeskM cs δ Unit) : SessionM cs δ Bytes := fun s =>
  match x ⟨s.schedule, .new out⟩ with
  | (.ok _ d, l) => (.ok (d.writer.buf.take d.writer.pos) { s with schedule := d.schedule },
      l ++ n.asks [.slice 0 d.writer.pos d.writer.buf.length])
  | (.error e d, l) => (.error e { s with schedule := d.schedule }, l)

@[simp] theorem erase_writing (out : Bytes) (x : DeskM cs δ Unit) :
    (writing n out x).erase = Session.writing out x.erase := by
  funext s
  simp only [erase, writing, Session.writing]
  rcases x ⟨s.schedule, .new out⟩ with ⟨r, l⟩
  cases r with
  | ok u d => rfl
  | error e d => rfl

theorem writing_triple {out : Bytes} {x : DeskM cs δ Unit} {pre : List δ → Session cs → Prop}
    {post : List δ → Session cs → Prop} {fail : Stop → List δ → Session cs → Prop}
    (h : ∀ s, Triple (fun l d => d = ⟨s.schedule, .new out⟩ ∧ pre l s) x
      (fun _ l d => post (l ++ n.asks [.slice 0 d.writer.pos d.writer.buf.length])
        { s with schedule := d.schedule })
      fun e l d => fail e l { s with schedule := d.schedule }) :
    Triple pre (writing n out x) (fun _ => post) fail := by
  intro l s hs
  have hends := h s l _ ⟨rfl, hs⟩
  simp only [writing]
  rcases hrun : x ⟨s.schedule, .new out⟩ with ⟨r, l'⟩
  rw [hrun] at hends
  cases r with
  | ok u d =>
      simp only [Ends, List.append_assoc] at hends ⊢
      exact hends
  | error e d => exact hends

def prepareBinderKey (config : TlsServerConfig) : SessionM cs Demand Unit := do
  if (← bare get : Session cs).hrrState.sent then pure ()
  else onSession (asking (fun _ => earlyDemands cs)
    (Session.orCryptoError (KeySchedule.initializeEarlySecret P (some config.pskSecret))))

/-- The message up to its binders, and the label of the binder's key. -/
def checkBinder (msg : Bytes) (offer : Offer) : SessionM cs Demand Unit :=
  asking (fun _ => .slice 0 offer.hello.bindersStartOffset msg.length :: finishedDemands cs)
    (Session.checkBinder P msg offer)

def snapshotCh1 (hello : ClientHelloRef) : SessionM cs Demand Unit :=
  asking (fun _ => [.narrow 8 hello.legacySessionId.length,
    .slice 0 hello.legacySessionId.length 32,
    .copy hello.legacySessionId.length hello.legacySessionId.length]) (Session.snapshotCh1 hello)

def retry (msg : Bytes) (offer : Offer) (group : NamedGroup) (out : Bytes) :
    SessionM cs Demand HandshakeOutput := do
  let bytes ← writing .demands out
    (writeHelloRetryRequestRecord P offer.hello.legacySessionId group msg)
  snapshotCh1 offer.hello
  return .helloRetryRequest bytes

def firstFlight (X : X25519) (msg : Bytes) (config : TlsServerConfig) (offer : Offer)
    (mode : KexMode) (out : Bytes) : SessionM cs δ HandshakeOutput := do
  bare (Session.onSchedule (KeySchedule.updateTranscript msg))
  let bytes ← writing n out (writeFlight n P X config offer mode)
  return .firstFlight bytes

/-- The ClientHello asked for a retry, or it is answered. -/
def answer (X : X25519) (msg : Bytes) (config : TlsServerConfig) (offer : Offer) (out : Bytes) :
    SessionM cs δ HandshakeOutput :=
  match offer.decision with
  | .retry group => n.asked (retry P msg offer group out)
  | .use mode => firstFlight n P X msg config offer mode out

def processClientHello (X : X25519) (msg : Bytes) (config : TlsServerConfig) (out : Bytes) :
    SessionM cs δ HandshakeOutput := do
  let offer ← n.asked (examine msg config)
  n.asked (prepareBinderKey P config)
  n.asked (checkBinder P msg offer)
  answer n P X msg config offer out

theorem erase_prepareBinderKey (config : TlsServerConfig) :
    (prepareBinderKey P config).erase = Session.prepareBinderKey P config := by
  simp only [prepareBinderKey, erase_bind, erase_bare, erase_ite, erase_onSession, erase_asking]
  rfl

theorem erase_retry (msg : Bytes) (offer : Offer) (group : NamedGroup) (out : Bytes) :
    (retry P msg offer group out).erase = Session.retry P msg offer group out := by
  simp only [retry, erase_bind, erase_writing, erase_writeHelloRetryRequestRecord]
  rfl

theorem erase_firstFlight (X : X25519) (msg : Bytes) (config : TlsServerConfig) (offer : Offer)
    (mode : KexMode) (out : Bytes) : (firstFlight n P X msg config offer mode out).erase =
      Session.firstFlight P X msg config offer mode out := by
  simp only [firstFlight, erase_bind, erase_bare, erase_writing, erase_writeFlight, erase_pure]
  rfl

theorem erase_processClientHello (X : X25519) (msg : Bytes) (config : TlsServerConfig) (out : Bytes) :
    (processClientHello n P X msg config out).erase =
      Session.processClientHello P X msg config out := by
  have hanswer : ∀ offer : Offer, (answer n P X msg config offer out).erase =
      match offer.decision with
      | .retry group => Session.retry P msg offer group out
      | .use mode => Session.firstFlight P X msg config offer mode out := by
    intro offer
    rw [answer]
    cases offer.decision with
    | retry group => exact erase_retry P msg offer group out
    | use mode => exact erase_firstFlight n P X msg config offer mode out
  simp only [processClientHello, erase_bind, Notes.erase_asked, erase_prepareBinderKey, hanswer]
  simp only [examine, erase_asking, bind_assoc]
  rfl

end Hello

section Records

variable (n : Notes cs δ) (P : Primitives cs)

/-- Three bytes of the header, and the length it gives. -/
def framingDemands (record : Bytes) : List Demand :=
  if record.length < RECORD_HEADER_LEN then []
  else .index 0 record.length ::
    if record.head? ≠ some ContentType.applicationData.toU8 then []
    else [.index 3 record.length, .index 4 record.length,
      .plus RECORD_HEADER_LEN (fromBigEndian ((record.drop 3).take 2))]

/-- The body is copied to the front of a buffer of `room` bytes and opened there. -/
def openDemands (s : KeyScheduleState cs) (record : Bytes) (bodyLen room : Nat) : List Demand :=
  [.slice 0 bodyLen room, .slice RECORD_HEADER_LEN record.length record.length,
    .copy bodyLen (record.length - RECORD_HEADER_LEN), .slice 0 RECORD_HEADER_LEN record.length] ++
  (nonceDemands cs ++ (GatoPskTls.Checked.decryptInPlace P s.key
    (KeyScheduleState.nonce s.counter s.iv) (record.take RECORD_HEADER_LEN)
    (.wrapWithPos (record.drop RECORD_HEADER_LEN) bodyLen)).2)

def openRecord (record : Bytes) (bodyLen room : Nat) : ScheduleM cs Demand Bytes := do
  demandAt fun ks => openDemands P ks.clientState.state record bodyLen room
  let plaintext ← bare (Session.openRecord P record (record.drop RECORD_HEADER_LEN))
  demand [.slice 0 plaintext.length room]
  return plaintext

theorem erase_openRecord (record : Bytes) (bodyLen room : Nat) :
    (openRecord P record bodyLen room).erase =
      Session.openRecord P record (record.drop RECORD_HEADER_LEN) := by
  simp only [openRecord, erase_bind, erase_demandAt, erase_bare, erase_demand, erase_pure, pure_bind,
    bind_pure]

/-- The byte at the end of the padding, and what stands before it. -/
def stripDemands (plaintext : Bytes) (room : Nat) : List Demand :=
  match Session.padEnd plaintext with
  | none => []
  | some i => [.index i room, .slice 0 i room]

def parseClientFinished (cs : TlsCipherSuite) : ParserM TlsError (GenericArray cs.hashLen) := do
  let msgType ← orInvalid GatoPskTls.Checked.readU8
  if msgType ≠ HandshakeType.finished.toU8 then bare (throw .invalidHandshake)
  else do
    let bodyLen ← orInvalid GatoPskTls.Checked.readU24
    if bodyLen ≠ cs.hashLen then bare (throw .invalidHandshake)
    else do
      let verify ← orInvalid (GatoPskTls.Checked.fill cs.hashLen)
      if !(← bare get).isEmpty then bare (throw .invalidHandshake) else pure verify

theorem erase_parseClientFinished : (parseClientFinished cs).erase = Session.parseClientFinished cs := by
  simp only [parseClientFinished, erase_bind, erase_ite, erase_bare, erase_pure, orInvalid,
    erase_mapError]
  rfl

/-- The inner message is read from the plaintext. -/
def payloadDemands (cs : TlsCipherSuite) (plaintext : Bytes) : List Demand :=
  stripDemands plaintext plaintext.length ++
    match Session.stripPadding plaintext with
    | .error _ => []
    | .ok (_, inner) => (parseClientFinished cs (ParseBuffer.new inner)).2

def processClientFinishedIn (record : Bytes) : ScheduleM cs δ Unit := do
  n.asked (demand (framingDemands record))
  let bodyLen ← bare (fromResult ((Session.checkFraming record).mapError .err))
  let snapshot := P.hash (← bare get : KeySchedule cs).serverState.transcriptHash
  if bodyLen > 256 then bare (throw (.err .insufficientSpace))
  else do
    let plaintext ← n.asked (openRecord P record bodyLen 256)
    n.asked (demand (payloadDemands cs plaintext))
    let (inner, verify) ← bare (fromResult ((Session.finishedPayload cs plaintext).mapError .err))
    let ks ← bare get
    n.asked (demand (finishedDemands cs))
    let ok ← bare (fromResult ((KeySchedule.verifyClientFinished P ks ⟨verify, some snapshot⟩).mapError
      fun _ => .err .cryptoError))
    if ok then do
      installing n P (KeySchedule.zero cs) .clientApplicationTraffic .serverApplicationTraffic
        (KeySchedule.initializeMasterSecret P)
      bare (KeySchedule.updateTranscript inner)
    else bare (throw (.err (fatal .decryptError)))

theorem erase_processClientFinishedIn (record : Bytes) :
    (processClientFinishedIn n P record).erase = Session.processClientFinishedIn P record := by
  simp only [processClientFinishedIn, erase_bind, erase_bare, Notes.erase_asked, erase_demand,
    erase_ite, erase_openRecord, erase_installing, pure_bind]
  rfl

def processClientFinished (record : Bytes) : SessionM cs δ Unit :=
  onSession (processClientFinishedIn n P record)

/-- The header and the payload are written to the front of `out`, the record is sealed there, and
its length is that of the result. -/
def sealPayload (payload : Bytes) (marker : ContentType) (out : Bytes) (writes : List Demand) :
    ScheduleM cs δ Bytes := do
  let plaintextWithMarker := payload.length + 1
  let ciphertextLen := plaintextWithMarker + cs.tagSize
  let header := protectedHeader ciphertextLen
  n.asked (demand
    (.narrow 16 ciphertextLen :: ((List.range 5).map (fun i => .index i out.length) ++ writes)))
  let out := splice out 0 (header ++ payload ++ [marker.toU8])
  n.asked (demand [.slice RECORD_HEADER_LEN (RECORD_HEADER_LEN + ciphertextLen) out.length])
  let region := (out.drop RECORD_HEADER_LEN).take ciphertextLen
  let ks ← bare get
  let ciphertext ← sealRegion n P ks.serverState.state header region plaintextWithMarker
  bare incrementServerCounter
  n.asked (demand [.slice 0 (RECORD_HEADER_LEN + ciphertextLen) out.length])
  return (splice out RECORD_HEADER_LEN ciphertext).take (RECORD_HEADER_LEN + ciphertextLen)

theorem erase_sealPayload (payload : Bytes) (marker : ContentType) (out : Bytes)
    (writes : List Demand) :
    (sealPayload n P payload marker out writes).erase = Session.sealPayload P payload marker out := by
  simp only [sealPayload, erase_bind, erase_bare, Notes.erase_asked, erase_demand, erase_sealRegion,
    erase_pure, pure_bind]
  rfl

/-- Both record lengths are sums. -/
def totalDemands (cs : TlsCipherSuite) (payloadLen : Nat) : List Demand :=
  [.plus payloadLen 1, .plus (payloadLen + 1) cs.tagSize,
    .plus RECORD_HEADER_LEN (payloadLen + 1 + cs.tagSize)]

/-- `encrypt_app_data` copies its payload and puts the marker behind it. -/
def payloadWrites (payloadLen room : Nat) : List Demand :=
  [.plus RECORD_HEADER_LEN payloadLen,
    .slice RECORD_HEADER_LEN (RECORD_HEADER_LEN + payloadLen) room,
    .copy (RECORD_HEADER_LEN + payloadLen - RECORD_HEADER_LEN) payloadLen,
    .index (RECORD_HEADER_LEN + payloadLen) room]

/-- `encrypt_alert` sets three bytes. -/
def alertWrites (room : Nat) : List Demand :=
  (List.range 3).map fun i => .index (RECORD_HEADER_LEN + i) room

def encryptAppData (plaintext out : Bytes) : SessionM cs δ Bytes := do
  n.asked (demand (totalDemands cs plaintext.length))
  let ciphertextLen := plaintext.length + 1 + cs.tagSize
  if out.length < RECORD_HEADER_LEN + ciphertextLen then bare (throw (.err .insufficientSpace))
  else if ciphertextLen > 65535 then bare (throw (.err .encodeError))
  else onSession (sealPayload n P plaintext .applicationData out
    (payloadWrites plaintext.length out.length))

def encryptAlert (level : AlertLevel) (description : AlertDescription) (out : Bytes) :
    SessionM cs δ Bytes := do
  n.asked (demand (totalDemands cs 2))
  if out.length < RECORD_HEADER_LEN + (2 + 1 + cs.tagSize) then
    bare (throw (.err .insufficientSpace))
  else onSession (sealPayload n P [level.toU8, description.toU8] .alert out (alertWrites out.length))

def openPayload (record plaintextBuf : Bytes) : ScheduleM cs Demand (ContentType × Bytes) := do
  demand (framingDemands record)
  let bodyLen ← bare (fromResult ((Session.checkFraming record).mapError .err))
  if plaintextBuf.length < bodyLen then bare (throw (.err .insufficientSpace))
  else do
    let plaintext ← openRecord P record bodyLen plaintextBuf.length
    demand (stripDemands plaintext plaintextBuf.length)
    bare (fromResult ((Session.stripPadding plaintext).mapError .err))

def decryptAppData (record plaintextBuf : Bytes) : SessionM cs Demand Bytes := do
  let (contentType, payload) ← onSession (openPayload P record plaintextBuf)
  if contentType ≠ .applicationData then bare (throw (.err .invalidRecord)) else pure payload

/-- An alert is read from the buffer byte by byte. -/
def alertDemands (contentType : ContentType) (payload : Bytes) (room : Nat) : List Demand :=
  if contentType = .alert ∧ payload.length = 2 then [.index 0 room, .index 1 room] else []

def decryptAppDataOrAlert (record plaintextBuf : Bytes) : SessionM cs Demand AppDataOrAlert := do
  let (contentType, payload) ← onSession (openPayload P record plaintextBuf)
  demand (alertDemands contentType payload plaintextBuf.length)
  bare (fromResult ((Session.interpretPayload contentType payload).mapError .err))

theorem erase_processClientFinished (record : Bytes) :
    (processClientFinished n P record).erase = Session.processClientFinished P record := by
  simp only [processClientFinished, erase_onSession, erase_processClientFinishedIn]
  rfl

theorem erase_encryptAppData (plaintext out : Bytes) :
    (encryptAppData n P plaintext out).erase = Session.encryptAppData P plaintext out := by
  simp only [encryptAppData, erase_bind, Notes.erase_asked, erase_demand, pure_bind, erase_ite,
    erase_bare, erase_onSession, erase_sealPayload]
  rfl

theorem erase_encryptAlert (level : AlertLevel) (description : AlertDescription) (out : Bytes) :
    (encryptAlert n P level description out).erase = Session.encryptAlert P level description out := by
  simp only [encryptAlert, erase_bind, Notes.erase_asked, erase_demand, pure_bind, erase_ite,
    erase_bare, erase_onSession, erase_sealPayload]
  rfl

theorem erase_openPayload (record plaintextBuf : Bytes) :
    (openPayload P record plaintextBuf).erase = Session.openPayload P record plaintextBuf := by
  simp only [openPayload, erase_bind, erase_demand, pure_bind, erase_ite, erase_bare, erase_openRecord]
  rfl

theorem erase_decryptAppData (record plaintextBuf : Bytes) :
    (decryptAppData P record plaintextBuf).erase = Session.decryptAppData P record plaintextBuf := by
  simp only [decryptAppData, erase_bind, erase_onSession, erase_openPayload, erase_ite,
    erase_bare, erase_pure]
  rfl

theorem erase_decryptAppDataOrAlert (record plaintextBuf : Bytes) :
    (decryptAppDataOrAlert P record plaintextBuf).erase =
      Session.decryptAppDataOrAlert P record plaintextBuf := by
  simp only [decryptAppDataOrAlert, erase_bind, erase_onSession, erase_openPayload,
    erase_demand, pure_bind, erase_bare]
  rfl

end Records

section Calls

/-- An answer with the notes made on the way to it. -/
def report (answer : Except Stop α → Answer) (run : EStateM.Result Stop (Session cs) α × List δ) :
    (Answer × Session cs) × List δ :=
  ((answer (outcome run.1), after run.1), run.2)

/-- One call. -/
def step (n : Notes cs δ) (P : Primitives cs) (X : X25519) (s : Session cs) :
    Call → (Answer × Session cs) × List δ
  | .processClientHello msg config out => report .handshake (processClientHello n P X msg config out s)
  | .processClientFinished record => report .finished (processClientFinished n P record s)
  | .encryptAppData plaintext out => report .bytes (encryptAppData n P plaintext out s)
  | .decryptAppData record buffer => report .bytes (n.asked (decryptAppData P record buffer) s)
  | .encryptAlert level description out => report .bytes (encryptAlert n P level description out s)
  | .decryptAppDataOrAlert record buffer =>
      report .dataOrAlert (n.asked (decryptAppDataOrAlert P record buffer) s)

/-- Whatever is noted, the answer and the session are the same. -/
theorem step_eq (n : Notes cs δ) (P : Primitives cs) (X : X25519) (s : Session cs) (c : Call) :
    (step n P X s c).1 = Session.step P X s c := by
  have hsame : ∀ {α : Type} (answer : Except Stop α → Answer) (x : SessionM cs δ α)
      (y : Session.M cs α), x.erase = y →
        (report answer (x s)).1 = (answer (outcome (y s)), after (y s)) := by
    rintro α answer x y rfl
    rfl
  cases c with
  | processClientHello msg config out => exact hsame _ _ _ (erase_processClientHello n P X msg config out)
  | processClientFinished record => exact hsame _ _ _ (erase_processClientFinished n P record)
  | encryptAppData plaintext out => exact hsame _ _ _ (erase_encryptAppData n P plaintext out)
  | decryptAppData record buffer => exact hsame _ _ _ (erase_decryptAppData P record buffer)
  | encryptAlert level description out =>
      exact hsame _ _ _ (erase_encryptAlert n P level description out)
  | decryptAppDataOrAlert record buffer => exact hsame _ _ _ (erase_decryptAppDataOrAlert P record buffer)

end Calls

end Noted

end GatoPskTls.Server
