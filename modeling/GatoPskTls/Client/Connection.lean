import GatoPskTls.Client.Channel

/-!
# The client's handshake

Decryption of the server's records, which are handed message by message to a callback, and
the states of the handshake from the moment its keys are installed. The crypto provider is
any stateful value with the operations of the trait.
-/
namespace GatoPskTls.Client

open Stateful ParseBuffer

variable {cs : TlsCipherSuite} {σ π : Type}

/-- `iter().enumerate().rfind(|(_, b)| **b != 0)`. -/
def lastNonZero (bytes : Bytes) : Option Nat :=
  (bytes.zipIdx.reverse.find? fun p => p.1 ≠ 0).map Prod.snd

def stripPadding (appData : CryptoBuffer) : CryptoBuffer :=
  match lastNonZero appData.asSlice with
  | some index => appData.truncate (index + 1)
  | none => appData

/-- The last byte of the stripped plaintext is the type of what stands before it. -/
def contentOf (appData : CryptoBuffer) : Except Stop (ContentType × CryptoBuffer) :=
  match appData.asSlice.getLast? with
  | none => .error .panic
  | some byte =>
      match ContentType.of byte with
      | none => .error (.err .invalidRecord)
      | some contentType => .ok (contentType, appData.truncate (appData.len - 1))

def openRecord (P : Primitives cs) (s : KeyScheduleState cs) (record : ApplicationData) :
    Except Stop (ContentType × CryptoBuffer) := do
  let serverKey ← s.getKey.mapError .err
  let nonce ← s.getNonce.mapError .err
  match CryptoBuffer.decryptInPlace P serverKey nonce record.header.header.val record.data with
  | .error _ _ => .error (.err .cryptoError)
  | .ok () appData => contentOf (stripPadding appData)

/-- The read key schedule, and what the callback has captured. -/
structure Reading (cs : TlsCipherSuite) (σ : Type) where
  schedule : ReadKeySchedule cs
  captured : σ

namespace Reading

abbrev M (cs : TlsCipherSuite) (σ : Type) := EStateM Stop (Reading cs σ)

def onState {α : Type} (x : EStateM Stop (KeyScheduleState cs) α) : M cs σ α :=
  onPart (·.schedule.state) (fun r state => { r with schedule.state := state }) x

def onCaptured {α : Type} (x : EStateM Stop σ α) : M cs σ α :=
  onPart (·.captured) (fun r captured => { r with captured }) x

/-- `ServerHandshake::read`: the message, and the buffer behind it. -/
def readMessage (P : Primitives cs) (buf : ParseBuffer) : M cs σ (ServerHandshake cs × ParseBuffer) :=
  fun r =>
    match ServerHandshake.read P r.schedule.transcriptHash buf with
    | .ok (message, digest) buf' =>
        .ok (message, buf') { r with schedule.transcriptHash := digest }
    | .error e _ => .error (.err e) r

theorem readMessage_remaining {P : Primitives cs} {buf : ParseBuffer} {r r' : Reading cs σ}
    {read : ServerHandshake cs × ParseBuffer} (h : readMessage P buf r = .ok read r') :
    read.2.remaining + 4 ≤ buf.remaining := by
  simp only [readMessage] at h
  split at h
  next message digest buf' hread =>
    cases h
    obtain ⟨w, hlen, hw, -⟩ := ServerHandshake.read_eq_ok hread
    have := hw.remaining_eq
    simp only
    omega
  · cases h

end Reading

abbrev Callback (cs : TlsCipherSuite) (σ : Type) := ServerRecord cs → Reading.M cs σ Unit

/-- `while buf.remaining() > 0`. A message takes at least four bytes, so the number of bytes
bounds the number of turns. -/
def deliverMessages (P : Primitives cs) (cb : Callback cs σ) : Nat → ParseBuffer → Reading.M cs σ Unit
  | 0, _ => pure ()
  | n+1, buf => do
      if buf.remaining > 0 then do
        let (message, buf') ← Reading.readMessage P buf
        cb (.handshake message)
        deliverMessages P cb n buf'
      else pure ()

/-- More turns than there are bytes left change nothing. -/
theorem deliverMessages_of_le (P : Primitives cs) (cb : Callback cs σ) {n m : Nat} {buf : ParseBuffer}
    (hn : buf.remaining ≤ n) (hm : buf.remaining ≤ m) :
    deliverMessages P cb n buf = deliverMessages P cb m buf := by
  induction n generalizing m buf with
  | zero =>
      cases m with
      | zero => rfl
      | succ m => simp only [deliverMessages, if_neg (by omega : ¬buf.remaining > 0)]
  | succ n ih =>
      cases m with
      | zero => simp only [deliverMessages, if_neg (by omega : ¬buf.remaining > 0)]
      | succ m =>
          simp only [deliverMessages]
          split
          · funext r
            cases hread : Reading.readMessage P buf r with
            | error e r₁ => rw [bind_of_error hread, bind_of_error hread]
            | ok read r₁ =>
                rw [bind_of_ok hread, bind_of_ok hread]
                have hrem := Reading.readMessage_remaining hread
                rw [ih (show read.2.remaining ≤ n by omega) (show read.2.remaining ≤ m by omega)]
          · rfl

def deliver (P : Primitives cs) (cb : Callback cs σ) (header : RecordHeader) (appData : CryptoBuffer) :
    ContentType → Reading.M cs σ Unit
  | .handshake => deliverMessages P cb appData.asSlice.length (ParseBuffer.new appData.asSlice)
  | .applicationData => cb (.applicationData ⟨header, appData⟩)
  | .alert => do
      let alert ← fromResult (ServerRecord.parsed Alert.parse appData.asSlice)
      cb (.alert alert)
  | _ => throw (.err .unimplemented)

/-- A record that is not application data goes to the callback as it is. -/
def decryptRecord (P : Primitives cs) (cb : Callback cs σ) : ServerRecord cs → Reading.M cs σ Unit
  | .applicationData record => do
      let (contentType, appData) ← fromResult (openRecord P (← get).schedule.state record)
      deliver P cb record.header appData contentType
      Reading.onState KeyScheduleState.incrementCounter
  | record => cb record

theorem decryptRecord_eq_ok {P : Primitives cs} {cb : Callback cs σ} {record : ApplicationData}
    {r r' : Reading cs σ} :
    decryptRecord P cb (.applicationData record) r = .ok () r' ↔
      ∃ contentType appData r₁, openRecord P r.schedule.state record = .ok (contentType, appData) ∧
        deliver P cb record.header appData contentType r = .ok () r₁ ∧
        Reading.onState KeyScheduleState.incrementCounter r₁ = .ok () r' := by
  simp only [decryptRecord, get_bind_apply, bind_eq_ok, fromResult_eq_ok]
  constructor
  · rintro ⟨⟨contentType, appData⟩, _, ⟨hopen, rfl⟩, _, r₁, hdeliver, hcount⟩
    exact ⟨contentType, appData, r₁, hopen, hdeliver, hcount⟩
  · rintro ⟨contentType, appData, r₁, hopen, hdeliver, hcount⟩
    exact ⟨(contentType, appData), r, ⟨hopen, rfl⟩, (), r₁, hdeliver, hcount⟩

/-- The read key schedule is the same. -/
abbrev SameSchedule : Reading cs σ → Reading cs σ → Prop := Same Reading.schedule

theorem keeps_onCaptured {α : Type} (x : EStateM Stop σ α) :
    Keeps SameSchedule (Reading.onCaptured x : Reading.M cs σ α) :=
  Keeps.onPart (R := fun _ _ => True) (fun _ => trivial) fun _ _ _ => rfl

/-- What reading a message and the callback keep, a whole record's messages keep. -/
theorem keeps_deliverMessages {P : Primitives cs} {cb : Callback cs σ}
    {R : Reading cs σ → Reading cs σ → Prop} [Std.Refl R] [IsTrans (Reading cs σ) R]
    (hread : ∀ buf, Keeps R (Reading.readMessage P buf))
    (hcb : ∀ message, Keeps R (cb (.handshake message))) (n : Nat) (buf : ParseBuffer) :
    Keeps R (deliverMessages P cb n buf) := by
  induction n generalizing buf with
  | zero => exact .pure _
  | succ n ih =>
      simp only [deliverMessages]
      split
      · exact (hread buf).bind fun read => (hcb read.1).bind fun _ => ih read.2
      · exact .pure _

theorem keeps_decryptRecord {P : Primitives cs} {cb : Callback cs σ}
    {R : Reading cs σ → Reading cs σ → Prop} [Std.Refl R] [IsTrans (Reading cs σ) R]
    (hread : ∀ buf, Keeps R (Reading.readMessage P buf))
    (hcount : Keeps R (Reading.onState KeyScheduleState.incrementCounter))
    (hcb : ∀ record, Keeps R (cb record)) (record : ServerRecord cs) :
    Keeps R (decryptRecord P cb record) := by
  have hdeliver : ∀ header appData contentType,
      Keeps R (deliver P cb header appData contentType) := by
    intro header appData contentType
    cases contentType with
    | handshake => exact keeps_deliverMessages hread (fun _ => hcb _) _ _
    | applicationData => exact hcb _
    | alert => exact (Keeps.fromResult _).bind fun _ => hcb _
    | invalid => exact .throw _
    | changeCipherSpec => exact .throw _
  cases record with
  | applicationData data =>
      exact Keeps.get.bind fun _ => (Keeps.fromResult _).bind fun _ =>
        (hdeliver _ _ _).bind fun _ => hcount
  | handshake message => exact hcb _
  | changeCipherSpec => exact hcb _
  | alert alert => exact hcb _

/-- Messages that were read leave the keys alone and go into the transcript. -/
structure Transcribes (content : Bytes) (r r' : Reading cs σ) : Prop where
  keys : r'.schedule.state = r.schedule.state
  transcript : ∃ w, w <+: content ∧ r'.schedule.transcriptHash = r.schedule.transcriptHash ++ w

theorem Transcribes.of_same {content : Bytes} {r r' : Reading cs σ} (h : SameSchedule r r') :
    Transcribes content r r' where
  keys := congrArg ReadKeySchedule.state h
  transcript := ⟨[], List.nil_prefix, by
    rw [List.append_nil, show r'.schedule = r.schedule from h]⟩

section Schedule

variable {P : Primitives cs} {cb : Callback cs σ} (hcb : ∀ record, Keeps SameSchedule (cb record))
include hcb

theorem deliverMessages_transcribes (n : Nat) (buf : ParseBuffer) (r : Reading cs σ) :
    Transcribes buf.rest r (after (deliverMessages P cb n buf r)) := by
  induction n generalizing buf r with
  | zero => exact .of_same rfl
  | succ n ih =>
      simp only [deliverMessages]
      split
      · cases hread : ServerHandshake.read P r.schedule.transcriptHash buf with
        | error e buf' =>
            rw [bind_of_error (show Reading.readMessage P buf r = .error (.err e) r by
              simp only [Reading.readMessage, hread])]
            exact .of_same rfl
        | ok read buf' =>
            obtain ⟨message, digest⟩ := read
            rw [bind_of_ok (show Reading.readMessage P buf r =
              .ok (message, buf') { r with schedule.transcriptHash := digest } by
                simp only [Reading.readMessage, hread])]
            obtain ⟨w, -, hw, hdigest⟩ := ServerHandshake.read_eq_ok hread
            -- the message stands in the transcript before the callback sees it
            have hhead : ∀ r', r'.schedule = { r.schedule with transcriptHash := digest } →
                ∀ {r'' : Reading cs σ}, Transcribes buf'.rest r' r'' → Transcribes buf.rest r r'' := by
              intro r' hr' r'' h
              obtain ⟨hkeys, v, hv, htranscript⟩ := h
              refine ⟨by rw [hkeys, hr'], w ++ v, ?_, ?_⟩
              · rw [hw.rest_eq]
                exact (List.prefix_append_right_inj w).mpr hv
              · rw [htranscript, hr', hdigest, List.append_assoc]
            cases hcall : cb (.handshake message) { r with schedule.transcriptHash := digest } with
            | error e r₁ =>
                rw [bind_of_error hcall]
                exact hhead r₁ ((hcb _).error hcall) (.of_same rfl)
            | ok u r₁ =>
                rw [bind_of_ok hcall]
                exact hhead r₁ ((hcb _).ok hcall) (ih buf' r₁)
      · exact .of_same rfl

theorem deliver_transcribes (header : RecordHeader) (appData : CryptoBuffer)
    (contentType : ContentType) (r : Reading cs σ) :
    Transcribes (if contentType = .handshake then appData.asSlice else []) r
      (after (deliver P cb header appData contentType r)) := by
  cases contentType with
  | handshake =>
      rw [if_pos rfl]
      exact deliverMessages_transcribes hcb _ (ParseBuffer.new appData.asSlice) r
  | applicationData => exact .of_same (hcb _ r)
  | alert => exact .of_same ((Keeps.fromResult _).bind (fun _ => hcb _) r)
  | invalid => exact .of_same rfl
  | changeCipherSpec => exact .of_same rfl

/-- Only protected records count. -/
theorem decryptRecord_keys {header : RecordHeader} {data t t' : Bytes} {record : ServerRecord cs}
    (hd : ServerRecord.Decodes P header data t record t') {r r' : Reading cs σ}
    (h : decryptRecord P cb record r = .ok () r') :
    r'.schedule.state = if header.contentType = .applicationData then
      { r.schedule.state with counter := r.schedule.state.counter + 1 } else r.schedule.state := by
  have hplain : ∀ record, cb record r = .ok () r' → r'.schedule.state = r.schedule.state :=
    fun record h => congrArg ReadKeySchedule.state ((hcb record).ok h)
  cases hd with
  | changeCipherSpec hc => rw [if_neg (by simp [hc]), hplain _ h]
  | alert hc => rw [if_neg (by simp [hc]), hplain _ h]
  | handshake hc => rw [if_neg (by simp [hc]), hplain _ h]
  | applicationData hc =>
      obtain ⟨contentType, appData, r₁, -, hdeliver, hcount⟩ := decryptRecord_eq_ok.mp h
      have hkeys := (deliver_transcribes (P := P) hcb header appData contentType r).keys
      rw [hdeliver, after_ok] at hkeys
      obtain ⟨s, hs, rfl⟩ := onPart_eq_ok.mp hcount
      rw [incrementCounter_eq] at hs
      split at hs
      · cases hs
        rw [if_pos hc, ← hkeys]
      · cases hs

end Schedule

/-- The traits `CryptoProvider` and `TlsVerifier`, and whether the build has the feature `rsa`. -/
structure CryptoProvider (π : Type) where
  rsa : Bool
  verifier : EStateM TlsError π Unit
  verifyCertificate : (transcript : Bytes) → CertificateRef → EStateM Stop π Unit
  verifySignature : CertificateVerifyRef → EStateM Stop π Unit
  clientCert : EStateM Stop π (Option CertificateEntryRef)
  signer : EStateM TlsError π SignatureScheme
  sign : Bytes → EStateM Stop π Bytes

structure CertificateRequest where
  requestContext : Bytes
  deriving DecidableEq, Repr

def CertificateRequest.tryFrom (request : CertificateRequestRef) : Except TlsError CertificateRequest :=
  if request.requestContext.length ≤ 256 then .ok ⟨request.requestContext⟩
  else .error .insufficientSpace

structure Handshake where
  trafficHash : Option Bytes
  certificateRequest : Option CertificateRequest
  deriving DecidableEq, Repr

/-- The states once the handshake keys are installed. -/
inductive State
  | serverVerify
  | clientCert
  | clientCertVerify
  | clientFinished
  | applicationData
  deriving DecidableEq, Repr

/-- A check that succeeded: `verify_certificate`, `verify_signature`, the server's Finished. -/
inductive Check
  | certificate
  | signature
  | finished
  deriving DecidableEq, Repr

/-- What the callback of `process_server_verify` captures, with the checks made so far, newest
first, which no code reads. -/
structure Verifying (π : Type) where
  handshake : Handshake
  provider : π
  state : State
  checks : List Check
  deriving DecidableEq

namespace Verifying

/-- `if let Ok(verifier) = crypto_provider.verifier()`, otherwise the check is skipped. -/
def checkWith (pr : CryptoProvider π) (check : Check) (verify : EStateM Stop π Unit) :
    EStateM Stop (Verifying π) Unit := fun v =>
  match pr.verifier v.provider with
  | .error _ provider => .ok () { v with provider }
  | .ok () provider =>
      match verify provider with
      | .ok () provider => .ok () { v with provider, checks := check :: v.checks }
      | .error e provider => .error e { v with provider }

def storeRequest (request : CertificateRequestRef) : EStateM Stop (Verifying π) Unit := do
  let request ← fromResult ((CertificateRequest.tryFrom request).mapError .err)
  modify fun v => { v with handshake.certificateRequest := some request }

/-- The transcript is kept for the traffic keys unless the client has certificates to send. -/
def finish (transcript : Bytes) : EStateM Stop (Verifying π) Unit :=
  modify fun v =>
    if v.handshake.certificateRequest.isSome then
      { v with state := .clientCert, checks := .finished :: v.checks }
    else
      { v with
        state := .clientFinished
        handshake.trafficHash := some transcript
        checks := .finished :: v.checks }

end Verifying

def verifyMessage (P : Primitives cs) (pr : CryptoProvider π) :
    ServerHandshake cs → Reading.M cs (Verifying π) Unit
  | .encryptedExtensions => pure ()
  | .certificate certificate => do
      let transcript := (← get).schedule.transcriptHash
      Reading.onCaptured
        (Verifying.checkWith pr .certificate (pr.verifyCertificate transcript certificate))
  | .certificateVerify verify =>
      Reading.onCaptured (Verifying.checkWith pr .signature (pr.verifySignature verify))
  | .certificateRequest request => Reading.onCaptured (Verifying.storeRequest request)
  | .finished finished => do
      let schedule := (← get).schedule
      let verified ← fromResult ((KeySchedule.verifyServerFinished P schedule finished).mapError .err)
      if verified then Reading.onCaptured (Verifying.finish schedule.transcriptHash)
      else throw (.err .invalidSignature)
  | _ => throw (.err .invalidHandshake)

def verifyRecord (P : Primitives cs) (pr : CryptoProvider π) : Callback cs (Verifying π)
  | .handshake message => verifyMessage P pr message
  | .changeCipherSpec => pure ()
  | _ => throw (.err .invalidRecord)

/-- What a check, a stored request and the end of the flight keep, every record keeps. -/
theorem keeps_verifyRecord_of {P : Primitives cs} {pr : CryptoProvider π}
    {R : Reading cs (Verifying π) → Reading cs (Verifying π) → Prop} [Std.Refl R]
    [IsTrans (Reading cs (Verifying π)) R]
    (hcheck : ∀ check verify, Keeps R (Reading.onCaptured (Verifying.checkWith pr check verify)))
    (hstore : ∀ request, Keeps R (Reading.onCaptured (Verifying.storeRequest request)))
    (hfinish : ∀ transcript, Keeps R (Reading.onCaptured (Verifying.finish transcript)))
    (record : ServerRecord cs) : Keeps R (verifyRecord P pr record) := by
  cases record with
  | changeCipherSpec => exact .pure _
  | alert alert => exact .throw _
  | applicationData data => exact .throw _
  | handshake message =>
      cases message with
      | serverHello hello => exact .throw _
      | newSessionTicket => exact .throw _
      | encryptedExtensions => exact .pure _
      | certificate certificate => exact Keeps.get.bind fun _ => hcheck _ _
      | certificateVerify verify => exact hcheck _ _
      | certificateRequest request => exact hstore _
      | finished finished =>
          refine Keeps.get.bind fun _ => (Keeps.fromResult _).bind fun verified => ?_
          split
          · exact hfinish _
          · exact .throw _

theorem keeps_verifyRecord (P : Primitives cs) (pr : CryptoProvider π) (record : ServerRecord cs) :
    Keeps SameSchedule (verifyRecord P pr record) :=
  keeps_verifyRecord_of (fun _ _ => keeps_onCaptured _) (fun _ => keeps_onCaptured _)
    (fun _ => keeps_onCaptured _) record

/-- What `open` works on. -/
structure Opening (cs : TlsCipherSuite) (π : Type) where
  channel : Channel cs
  handshake : Handshake
  provider : π
  checks : List Check

namespace Opening

abbrev M (cs : TlsCipherSuite) (π : Type) := EStateM Stop (Opening cs π)

def onChannel {α : Type} (x : Channel.M cs α) : M cs π α :=
  onPart (·.channel) (fun o channel => { o with channel }) x

def onProvider {α : Type} (x : EStateM Stop π α) : M cs π α :=
  onPart (·.provider) (fun o provider => { o with provider }) x

def reading (o : Opening cs π) : Reading cs (Verifying π) :=
  ⟨o.channel.schedule.serverState, ⟨o.handshake, o.provider, .serverVerify, o.checks⟩⟩

def putReading (o : Opening cs π) (r : Reading cs (Verifying π)) : Opening cs π where
  channel := { o.channel with schedule.serverState := r.schedule }
  handshake := r.captured.handshake
  provider := r.captured.provider
  checks := r.captured.checks

def processServerVerify (P : Primitives cs) (pr : CryptoProvider π) (record : ServerRecord cs) :
    M cs π State :=
  onPart reading putReading do
    decryptRecord P (verifyRecord P pr) record
    return (← get).captured.state

/-- The peer is told about an aborted handshake by an unencrypted alert. -/
def handleProcessingError (P : Primitives cs) (x : M cs π State) : M cs π State := fun o =>
  match x o with
  | .error (.err (.abortHandshake level description)) o' =>
      (do
        let tx ← onChannel (Channel.writeRecord P (.alert ⟨level, description⟩ false))
        onChannel (Channel.respond tx)
        throw (.err (.abortHandshake level description)) : M cs π State) o'
  | result => result

theorem handleProcessingError_eq_ok {P : Primitives cs} {x : M cs π State} {o o' : Opening cs π}
    {state : State} (h : handleProcessingError P x o = .ok state o') : x o = .ok state o' := by
  simp only [handleProcessingError] at h
  split at h
  · simp only [bind_eq_ok] at h
    obtain ⟨_, _, -, _, _, -, h⟩ := h
    cases h
  · exact h

def clientCert (P : Primitives cs) (pr : CryptoProvider π) : M cs π (State × Bytes) := do
  modify fun o => ⟨o.channel, ⟨some o.channel.schedule.serverState.transcriptHash,
    o.handshake.certificateRequest⟩, o.provider, o.checks⟩
  match (← get).handshake.certificateRequest with
  | none => throw (.err .invalidHandshake)
  | some request => do
      let cert ← onProvider pr.clientCert
      let tx ← onChannel (Channel.writeRecord P
        (.handshake (.clientCert ⟨[], request.requestContext, cert.toList⟩) true))
      return (if cert.isSome then .clientCertVerify else .clientFinished, tx)

/-- RSA signatures are longer. -/
def SIGNATURE_SIZE (rsa : Bool) : Nat := if rsa then 512 else 104

/-- `"TLS 1.3, client CertificateVerify\x00"`. -/
def ctxStr : Bytes := ascii "TLS 1.3, client CertificateVerify".toList ++ [0]

/-- Without a signing key the client says goodbye and reports the provider's error. -/
def clientCertVerify (P : Primitives cs) (pr : CryptoProvider π) :
    M cs π (Except TlsError State × Bytes) := fun o =>
  match pr.signer o.provider with
  | .error e provider =>
      (do
        let tx ← onChannel (Channel.writeRecord P (.closeNotify true))
        return (.error e, tx) : M cs π (Except TlsError State × Bytes)) { o with provider }
  | .ok signatureScheme provider =>
      (do
        let hash := P.hash (← get).channel.schedule.serverState.transcriptHash
        let msg := List.replicate 64 0x20 ++ ctxStr ++ hash.val
        let signature ← onProvider (pr.sign msg)
        if signature.length > SIGNATURE_SIZE pr.rsa then throw .panic
        else do
          let tx ← onChannel (Channel.writeRecord P
            (.handshake (.clientCertVerify { signatureScheme, signature }) true))
          return (.ok .clientFinished, tx) : M cs π (Except TlsError State × Bytes))
        { o with provider }

def clientFinished (P : Primitives cs) : Channel.M cs Bytes := do
  let ks := (← get).schedule
  let finished ← fromResult
    ((KeySchedule.createClientFinished P ks).mapError fun _ => Stop.err .invalidHandshake)
  Channel.writeRecord P (.handshake (.finished finished) true)

/-- The traffic keys come from the transcript up to the server's Finished. -/
def clientFinishedFinalize (P : Primitives cs) : M cs π State := do
  let handshake := (← get).handshake
  match handshake.trafficHash with
  | none => throw (.err .invalidHandshake)
  | some hash => do
      modify fun o => { o with handshake.trafficHash := none }
      onChannel (Channel.onSchedule do
        KeySchedule.replaceTranscriptHash hash
        KeySchedule.initializeMasterSecret P)
      return .applicationData

def process (P : Primitives cs) (pr : CryptoProvider π) : State → M cs π State
  | .serverVerify => do
      let (_, record) ← onChannel (Channel.read P)
      handleProcessingError P (processServerVerify P pr record)
  | .clientCert => do
      let (state, tx) ← clientCert P pr
      onChannel (Channel.respond tx)
      return state
  | .clientCertVerify => do
      let (result, tx) ← clientCertVerify P pr
      onChannel (Channel.respond tx)
      fromResult (result.mapError .err)
  | .clientFinished => do
      let tx ← onChannel (clientFinished P)
      onChannel (Channel.respond tx)
      clientFinishedFinalize P
  | .applicationData => return .applicationData

end Opening

end GatoPskTls.Client
