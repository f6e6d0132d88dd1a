import GatoPskTls.Lib.Simulation
import GatoPskTls.Server.ClientFinished

/-!
# Server: the two decrypt functions

`decrypt_application_data` and `decrypt_app_data_or_alert` are written out twice in the source,
up to their last lines. Here each has its own body, with the caller's buffer as part of the state,
and the two are run side by side.
-/
namespace GatoPskTls.Server

open GatoPskTls Stateful BigEndian Splice

variable {cs : TlsCipherSuite}

/-- The key schedule and the caller's plaintext buffer. -/
@[ext] structure Opening (cs : TlsCipherSuite) where
  schedule : KeySchedule cs
  plaintextBuf : Bytes
  deriving DecidableEq

namespace Opening

abbrev M (cs : TlsCipherSuite) := EStateM Stop (Opening cs)

def onSchedule {α : Type} (x : KeySchedule.M cs α) : M cs α :=
  onPart (·.schedule) (fun o ks => { o with schedule := ks }) x

/-- `plaintext_buf[..body_len].copy_from_slice(..)`. -/
def copyBody (body : Bytes) : M cs Unit :=
  modify fun o => { o with plaintextBuf := splice o.plaintextBuf 0 body }

def clientKey : M cs (GenericArray cs.keyLen) := do
  fromResult ((← get).schedule.clientState.state.getKey.mapError .err)

def clientNonce : M cs (GenericArray cs.ivLen) := do
  fromResult ((← get).schedule.clientState.state.getNonce.mapError .err)

/-- Decrypt the front of the buffer in place; the result is the length of the plaintext. -/
def decryptInPlace (P : Primitives cs) (key : GenericArray cs.keyLen) (nonce : GenericArray cs.ivLen)
    (aad : Bytes) (bodyLen : Nat) : M cs Nat := fun o =>
  match CryptoBuffer.decryptInPlace P key nonce aad
      (.wrapWithPos (o.plaintextBuf.take bodyLen) bodyLen) with
  | .error _ b => .error (.err .cryptoError) { o with plaintextBuf := splice o.plaintextBuf 0 b.buf }
  | .ok () b => .ok b.len { o with plaintextBuf := splice o.plaintextBuf 0 b.buf }

/-- `plaintext_buf[i]`. -/
def byteAt (i : Nat) : M cs UInt8 := do
  match (← get).plaintextBuf[i]? with
  | none => throw .panic
  | some b => return b

/-- `ok_or(e)?`. -/
def okOr {α : Type} (e : TlsError) : Option α → M cs α
  | none => throw (.err e)
  | some a => return a

def decryptApplicationData (P : Primitives cs) (encryptedRecord : Bytes) : M cs Bytes := do
  if encryptedRecord.length < RECORD_HEADER_LEN then throw (.err .invalidRecord)
  else if encryptedRecord.head? ≠ some ContentType.applicationData.toU8 then
    throw (.err .invalidRecord)
  else do
    let bodyLen := fromBigEndian ((encryptedRecord.drop 3).take 2)
    if RECORD_HEADER_LEN + bodyLen ≠ encryptedRecord.length then throw (.err .invalidRecord)
    else do
      let o ← get
      if o.plaintextBuf.length < bodyLen then throw (.err .insufficientSpace)
      else do
        copyBody (encryptedRecord.drop RECORD_HEADER_LEN)
        let key ← clientKey
        let nonce ← clientNonce
        let plaintextLen ←
          decryptInPlace P key nonce (encryptedRecord.take RECORD_HEADER_LEN) bodyLen
        onSchedule incrementClientCounter
        let o ← get
        let padEnd ← okOr .invalidRecord (Session.padEnd (o.plaintextBuf.take plaintextLen))
        let innerCt ← okOr .invalidRecord (ContentType.of (← byteAt padEnd))
        if innerCt ≠ .applicationData then throw (.err .invalidRecord)
        else return o.plaintextBuf.take padEnd

/-- The payload of an alert is two bytes at the front of the buffer. -/
def readAlert (padEnd : Nat) : M cs AppDataOrAlert := do
  if padEnd ≠ 2 then throw (.err .invalidRecord)
  else do
    let level ← okOr .decodeError (AlertLevel.of (← byteAt 0))
    let description ← okOr .decodeError (AlertDescription.of (← byteAt 1))
    return .alert level description

/-- The last match of `decrypt_app_data_or_alert`. -/
def readInner (plaintextBuf : Bytes) (padEnd : Nat) : ContentType → M cs AppDataOrAlert
  | .applicationData => return .appData (plaintextBuf.take padEnd)
  | .alert => readAlert padEnd
  | _ => throw (.err .invalidRecord)

def decryptAppDataOrAlert (P : Primitives cs) (encryptedRecord : Bytes) : M cs AppDataOrAlert := do
  if encryptedRecord.length < RECORD_HEADER_LEN then throw (.err .invalidRecord)
  else if encryptedRecord.head? ≠ some ContentType.applicationData.toU8 then
    throw (.err .invalidRecord)
  else do
    let bodyLen := fromBigEndian ((encryptedRecord.drop 3).take 2)
    if RECORD_HEADER_LEN + bodyLen ≠ encryptedRecord.length then throw (.err .invalidRecord)
    else do
      let o ← get
      if o.plaintextBuf.length < bodyLen then throw (.err .insufficientSpace)
      else do
        copyBody (encryptedRecord.drop RECORD_HEADER_LEN)
        let key ← clientKey
        let nonce ← clientNonce
        let plaintextLen ←
          decryptInPlace P key nonce (encryptedRecord.take RECORD_HEADER_LEN) bodyLen
        onSchedule incrementClientCounter
        let o ← get
        let padEnd ← okOr .invalidRecord (Session.padEnd (o.plaintextBuf.take plaintextLen))
        let innerCt ← okOr .invalidRecord (ContentType.of (← byteAt padEnd))
        readInner o.plaintextBuf padEnd innerCt

section Erasure

variable {P : Primitives cs} {record buf plaintext : Bytes} {bodyLen : Nat} {ks : KeySchedule cs}

theorem decryptInPlace_eq {o : Opening cs} {key : GenericArray cs.keyLen}
    {nonce : GenericArray cs.ivLen} {aad : Bytes} (hroom : bodyLen ≤ o.plaintextBuf.length) :
    decryptInPlace P key nonce aad bodyLen o =
      match P.aeadOpen key nonce aad (o.plaintextBuf.take bodyLen) with
      | none => .error (.err .cryptoError) o
      | some plaintext =>
          .ok plaintext.length { o with plaintextBuf := splice o.plaintextBuf 0 plaintext } := by
  have hlen : (o.plaintextBuf.take bodyLen).length = bodyLen := by
    rw [List.length_take, Nat.min_eq_left hroom]
  have hwf : (CryptoBuffer.wrapWithPos (o.plaintextBuf.take bodyLen) bodyLen).WF := by
    simp only [CryptoBuffer.WF, CryptoBuffer.wrapWithPos, hlen]
    omega
  have hslice : (CryptoBuffer.wrapWithPos (o.plaintextBuf.take bodyLen) bodyLen).asSlice =
      o.plaintextBuf.take bodyLen := by
    simp [CryptoBuffer.asSlice, CryptoBuffer.wrapWithPos]
  have hback : splice o.plaintextBuf 0 (o.plaintextBuf.take bodyLen) = o.plaintextBuf := by
    rw [splice, Nat.zero_add, hlen, List.take_zero, List.nil_append, List.take_append_drop]
  rw [decryptInPlace, CryptoBuffer.decryptInPlace_eq hwf, hslice]
  cases hopen : P.aeadOpen key nonce aad (o.plaintextBuf.take bodyLen) with
  | none => simp only [CryptoBuffer.wrapWithPos, hback]
  | some plaintext =>
      have hshort := P.aeadOpen_length hopen
      have hinside := @splice_splice_inside _ o.plaintextBuf 0 0 (o.plaintextBuf.take bodyLen)
        plaintext (Nat.zero_le _) (by omega)
      rw [hback] at hinside
      simp only [CryptoBuffer.wrapWithPos, ← hinside]

/-- From the copy of the body to the counter. -/
def openBody (P : Primitives cs) (record : Bytes) (bodyLen : Nat) : M cs Nat := do
  copyBody (record.drop RECORD_HEADER_LEN)
  let key ← clientKey
  let nonce ← clientNonce
  let plaintextLen ← decryptInPlace P key nonce (record.take RECORD_HEADER_LEN) bodyLen
  onSchedule incrementClientCounter
  return plaintextLen

theorem openBody_eq (hbody : (record.drop RECORD_HEADER_LEN).length = bodyLen)
    (hroom : bodyLen ≤ buf.length) :
    openBody P record bodyLen ⟨ks, buf⟩ =
      match Session.openedWith P ks.clientState.state record with
      | none => .error (.err .cryptoError) ⟨ks, splice buf 0 (record.drop RECORD_HEADER_LEN)⟩
      | some plaintext =>
          let buf' := splice (splice buf 0 (record.drop RECORD_HEADER_LEN)) 0 plaintext
          if CanCount ks.clientState.state then .ok plaintext.length ⟨bumpClient ks, buf'⟩
          else .error .panic ⟨ks, buf'⟩ := by
  set body := record.drop RECORD_HEADER_LEN with hbodyEq
  have hlen : (splice buf 0 body).length = buf.length := splice_length (by omega)
  have hfront : (splice buf 0 body).take bodyLen = body := by
    rw [← hbody, splice, List.take_zero, List.nil_append, List.take_left]
  have hcopy : copyBody body ⟨ks, buf⟩ = .ok () ⟨ks, splice buf 0 body⟩ := rfl
  have hkey : clientKey ⟨ks, splice buf 0 body⟩ =
      .ok ks.clientState.state.key ⟨ks, splice buf 0 body⟩ := rfl
  have hnonce : clientNonce ⟨ks, splice buf 0 body⟩ =
      .ok (KeyScheduleState.nonce ks.clientState.state.counter ks.clientState.state.iv)
        ⟨ks, splice buf 0 body⟩ := rfl
  have hopen := @decryptInPlace_eq cs P bodyLen ⟨ks, splice buf 0 body⟩ ks.clientState.state.key
    (KeyScheduleState.nonce ks.clientState.state.counter ks.clientState.state.iv)
    (record.take RECORD_HEADER_LEN) (by rw [hlen]; exact hroom)
  rw [hfront] at hopen
  rw [openBody, bind_of_ok hcopy, bind_of_ok hkey, bind_of_ok hnonce, Session.openedWith, ← hbodyEq]
  cases haead : P.aeadOpen ks.clientState.state.key (KeyScheduleState.nonce
      ks.clientState.state.counter ks.clientState.state.iv) (record.take RECORD_HEADER_LEN) body with
  | none =>
      rw [haead] at hopen
      exact bind_of_error hopen
  | some plaintext =>
      rw [haead] at hopen
      rw [bind_of_ok hopen]
      have hinc := incrementClientCounter_eq ks
      by_cases hc : CanCount ks.clientState.state
      · rw [if_pos hc] at hinc
        simp only [if_pos hc]
        exact bind_of_ok (onPart_of_ok hinc)
      · rw [if_neg hc] at hinc
        simp only [if_neg hc]
        exact bind_of_error (onPart_of_error hinc)

theorem padEnd_lt {i : Nat} (h : Session.padEnd plaintext = some i) : i < plaintext.length := by
  obtain ⟨j, hj, rfl⟩ := Option.map_eq_some_iff.mp h
  obtain ⟨hlt, -⟩ := List.findIdx?_eq_some_iff_getElem.mp hj
  rw [List.length_reverse] at hlt
  omega

/-- The payload is the front of the plaintext. -/
theorem stripPadding_take {contentType : ContentType} {payload : Bytes}
    (h : Session.stripPadding plaintext = .ok (contentType, payload)) :
    payload.length ≤ plaintext.length ∧ plaintext.take payload.length = payload := by
  unfold Session.stripPadding at h
  split at h
  · cases h
  next i hi =>
    split at h
    · cases h
    · cases h
      have hlt := padEnd_lt hi
      have hlen : (plaintext.take i).length = i := by
        rw [List.length_take]
        omega
      rw [hlen]
      exact ⟨by omega, rfl⟩

/-- From the padding to the content type. -/
def innerType (plaintextLen : Nat) : M cs (Opening cs × Nat × ContentType) := do
  let o ← get
  let padEnd ← okOr .invalidRecord (Session.padEnd (o.plaintextBuf.take plaintextLen))
  let innerCt ← okOr .invalidRecord (ContentType.of (← byteAt padEnd))
  return (o, padEnd, innerCt)

theorem innerType_eq {o : Opening cs}
    (hfront : o.plaintextBuf.take plaintext.length = plaintext) :
    innerType plaintext.length o =
      match Session.stripPadding plaintext with
      | .error e => .error (.err e) o
      | .ok (contentType, payload) => .ok (o, payload.length, contentType) o := by
  rw [innerType, get_bind_apply]
  rw [hfront, Session.stripPadding]
  cases hend : Session.padEnd plaintext with
  | none => rfl
  | some i =>
      have hi := padEnd_lt hend
      have hbyte : o.plaintextBuf[i]? = plaintext[i]? := by
        rw [← hfront, List.getElem?_take_of_lt hi]
      have hat : byteAt i o = .ok plaintext[i] o := by
        rw [byteAt, get_bind_apply, hbyte, List.getElem?_eq_getElem hi]
        rfl
      have hpad : (okOr .invalidRecord (some i) : M cs Nat) o = .ok i o := rfl
      rw [bind_of_ok hpad, bind_of_ok hat]
      dsimp only
      rw [List.getElem?_eq_getElem hi, Option.bind_some]
      cases htype : ContentType.of plaintext[i] with
      | none => rfl
      | some contentType =>
          have hlen : (plaintext.take i).length = i := by
            rw [List.length_take]
            omega
          dsimp only
          rw [hlen]
          rfl

/-- What both functions do before they look at the content type. -/
def openInner (P : Primitives cs) (record : Bytes) : M cs (Opening cs × Nat × ContentType) := do
  let bodyLen ← fromResult ((Session.checkFraming record).mapError .err)
  let o ← get
  if o.plaintextBuf.length < bodyLen then throw (.err .insufficientSpace)
  else do
    let plaintextLen ← openBody P record bodyLen
    innerType plaintextLen

theorem decryptApplicationData_eq (P : Primitives cs) (record : Bytes) :
    decryptApplicationData P record = openInner P record >>= fun (o, padEnd, innerCt) =>
      if innerCt ≠ .applicationData then throw (.err .invalidRecord)
      else return o.plaintextBuf.take padEnd := by
  unfold decryptApplicationData openInner Session.checkFraming openBody innerType
  split
  · rfl
  split
  · rfl
  dsimp only
  split
  · rfl
  · funext o
    simp only [mapError_ok_eq, bind_assoc, pure_bind, fromResult_ok_bind, get_bind_apply]
    split
    · rfl
    · simp only [bind_assoc, pure_bind]

theorem decryptAppDataOrAlert_eq (P : Primitives cs) (record : Bytes) :
    decryptAppDataOrAlert P record = openInner P record >>= fun (o, padEnd, innerCt) =>
      readInner o.plaintextBuf padEnd innerCt := by
  unfold decryptAppDataOrAlert openInner Session.checkFraming openBody innerType
  split
  · rfl
  split
  · rfl
  dsimp only
  split
  · rfl
  · funext o
    simp only [mapError_ok_eq, bind_assoc, pure_bind, fromResult_ok_bind, get_bind_apply]
    split
    · rfl
    · simp only [bind_assoc, pure_bind]

/-- The front ends as the session's `openPayload` does, with the payload at the front of the
buffer. -/
structure Fronted (P : Primitives cs) (record buf : Bytes) (ks : KeySchedule cs) (buf' : Bytes) :
    Prop where
  error : ∀ e ks', Session.openPayload P record buf ks = .error e ks' →
    openInner P record ⟨ks, buf⟩ = .error e ⟨ks', buf'⟩
  ok : ∀ contentType payload ks',
    Session.openPayload P record buf ks = .ok (contentType, payload) ks' →
      openInner P record ⟨ks, buf⟩ = .ok (⟨ks', buf'⟩, payload.length, contentType) ⟨ks', buf'⟩ ∧
      buf'.take payload.length = payload

theorem Fronted.of_error {buf' : Bytes} {e : Stop} {ks' : KeySchedule cs}
    (hpayload : Session.openPayload P record buf ks = .error e ks')
    (hinner : openInner P record ⟨ks, buf⟩ = .error e ⟨ks', buf'⟩) : Fronted P record buf ks buf' := by
  constructor
  · intro e' ks'' h
    cases hpayload.symm.trans h
    exact hinner
  · intro contentType payload ks'' h
    cases hpayload.symm.trans h

theorem Fronted.of_ok {buf' payload : Bytes} {contentType : ContentType} {ks' : KeySchedule cs}
    (hpayload : Session.openPayload P record buf ks = .ok (contentType, payload) ks')
    (hinner : openInner P record ⟨ks, buf⟩ =
      .ok (⟨ks', buf'⟩, payload.length, contentType) ⟨ks', buf'⟩)
    (hfront : buf'.take payload.length = payload) : Fronted P record buf ks buf' := by
  constructor
  · intro e' ks'' h
    cases hpayload.symm.trans h
  · intro contentType' payload' ks'' h
    cases hpayload.symm.trans h
    exact ⟨hinner, hfront⟩

theorem exists_fronted (P : Primitives cs) (record buf : Bytes) (ks : KeySchedule cs) :
    ∃ buf', Fronted P record buf ks buf' := by
  have hpayload := @Session.openPayload_eq cs P ks record buf
  cases hframed : Session.checkFraming record with
  | error e =>
      rw [hframed] at hpayload
      refine ⟨buf, .of_error hpayload ?_⟩
      rw [openInner, hframed]
      rfl
  | ok bodyLen =>
      obtain ⟨-, -, -, hbody⟩ := Session.checkFraming_eq_ok.mp hframed
      have hinner : openInner P record ⟨ks, buf⟩ =
          (if buf.length < bodyLen then throw (.err .insufficientSpace)
            else openBody P record bodyLen >>= innerType : M cs _) ⟨ks, buf⟩ := by
        rw [openInner, hframed]
        rfl
      simp only [hframed] at hpayload
      by_cases hroom : buf.length < bodyLen
      · rw [if_pos hroom] at hpayload hinner
        exact ⟨buf, .of_error hpayload hinner⟩
      rw [if_neg hroom] at hpayload hinner
      have hopen := @openBody_eq cs P record buf bodyLen ks hbody.symm (by omega)
      cases hopened : Session.openedWith P ks.clientState.state record with
      | none =>
          simp only [hopened] at hpayload hopen
          exact ⟨_, .of_error hpayload (hinner.trans (bind_of_error hopen))⟩
      | some plaintext =>
          simp only [hopened] at hpayload hopen
          by_cases hc : CanCount ks.clientState.state
          swap
          · rw [if_neg hc] at hpayload hopen
            exact ⟨_, .of_error hpayload (hinner.trans (bind_of_error hopen))⟩
          rw [if_pos hc] at hpayload hopen
          have hfront : (splice (splice buf 0 (record.drop RECORD_HEADER_LEN)) 0 plaintext).take
              plaintext.length = plaintext := by
            rw [splice, List.take_zero, List.nil_append, List.take_left]
          have htype := @innerType_eq cs plaintext ⟨bumpClient ks, _⟩ hfront
          have hboth := hinner.trans ((bind_of_ok hopen).trans htype)
          cases hstrip : Session.stripPadding plaintext with
          | error e =>
              simp only [hstrip] at hpayload hboth
              exact ⟨_, .of_error hpayload hboth⟩
          | ok result =>
              obtain ⟨contentType, payload⟩ := result
              simp only [hstrip] at hpayload hboth
              obtain ⟨hlen, htake⟩ := stripPadding_take hstrip
              refine ⟨_, .of_ok hpayload hboth ?_⟩
              rwa [← hfront, List.take_take, Nat.min_eq_left hlen] at htake

/-- The session's functions have no buffer. -/
def Beside (o : Opening cs) (s : Session cs) : Prop := o.schedule = s.schedule

theorem decryptApplicationData_alike (s : Session cs) (buf : Bytes) :
    Alike Beside (decryptApplicationData P record ⟨s.schedule, buf⟩)
      (Session.decryptAppData P record buf s) := by
  obtain ⟨buf', hfronted⟩ := exists_fronted P record buf s.schedule
  rw [decryptApplicationData_eq]
  cases hrun : Session.openPayload P record buf s.schedule with
  | error e ks' =>
      have hsession : Session.decryptAppData P record buf s = .error e { s with schedule := ks' } :=
        bind_of_error (onPart_of_error hrun)
      rw [bind_of_error (hfronted.error e ks' hrun), hsession]
      exact ⟨rfl, rfl⟩
  | ok result ks' =>
      obtain ⟨contentType, payload⟩ := result
      obtain ⟨hinner, hfront⟩ := hfronted.ok contentType payload ks' hrun
      have hsession : Session.decryptAppData P record buf s =
          (if contentType ≠ .applicationData then throw (.err .invalidRecord) else pure payload :
            Session.M cs Bytes) { s with schedule := ks' } :=
        bind_of_ok (onPart_of_ok hrun)
      rw [bind_of_ok hinner, hsession]
      dsimp only
      split
      · exact ⟨rfl, rfl⟩
      · exact ⟨hfront, rfl⟩

/-- An alert is read from the buffer as the session reads it from the payload. -/
theorem readInner_eq {o : Opening cs} {payload : Bytes} (contentType : ContentType)
    (hfront : o.plaintextBuf.take payload.length = payload) :
    readInner o.plaintextBuf payload.length contentType o =
      fromResult ((Session.interpretPayload contentType payload).mapError .err) o := by
  cases contentType with
  | applicationData =>
      rw [readInner, hfront]
      rfl
  | alert =>
      rw [readInner, readAlert]
      by_cases hlen : payload.length = 2
      · obtain ⟨level, description, rfl⟩ := List.length_eq_two.mp hlen
        have hbyte : ∀ i, i < 2 → o.plaintextBuf[i]? = [level, description][i]? := by
          intro i hi
          rw [← hfront, hlen, List.getElem?_take_of_lt hi]
        have hfirst : byteAt 0 o = .ok level o := by
          rw [byteAt, get_bind_apply, hbyte 0 (by decide)]
          rfl
        have hsecond : byteAt 1 o = .ok description o := by
          rw [byteAt, get_bind_apply, hbyte 1 (by decide)]
          rfl
        rw [if_neg (not_not.mpr hlen), bind_of_ok hfirst, Session.interpretPayload]
        cases AlertLevel.of level with
        | none => rfl
        | some l =>
            have hlevel : (okOr .decodeError (some l) : M cs AlertLevel) o = .ok l o := rfl
            rw [bind_of_ok hlevel, bind_of_ok hsecond]
            cases AlertDescription.of description with
            | none => rfl
            | some d => rfl
      · rw [if_pos hlen, Session.interpretPayload]
        · rfl
        · intro htype
          cases htype
        · rintro level description - rfl
          exact hlen rfl
  | invalid => rfl
  | changeCipherSpec => rfl
  | handshake => rfl

theorem decryptAppDataOrAlert_alike (s : Session cs) (buf : Bytes) :
    Alike Beside (decryptAppDataOrAlert P record ⟨s.schedule, buf⟩)
      (Session.decryptAppDataOrAlert P record buf s) := by
  obtain ⟨buf', hfronted⟩ := exists_fronted P record buf s.schedule
  rw [decryptAppDataOrAlert_eq]
  cases hrun : Session.openPayload P record buf s.schedule with
  | error e ks' =>
      have hsession : Session.decryptAppDataOrAlert P record buf s =
          .error e { s with schedule := ks' } := bind_of_error (onPart_of_error hrun)
      rw [bind_of_error (hfronted.error e ks' hrun), hsession]
      exact ⟨rfl, rfl⟩
  | ok result ks' =>
      obtain ⟨contentType, payload⟩ := result
      obtain ⟨hinner, hfront⟩ := hfronted.ok contentType payload ks' hrun
      have hsession : Session.decryptAppDataOrAlert P record buf s =
          fromResult ((Session.interpretPayload contentType payload).mapError .err)
            { s with schedule := ks' } := bind_of_ok (onPart_of_ok hrun)
      rw [bind_of_ok hinner, hsession]
      dsimp only
      rw [@readInner_eq cs ⟨ks', buf'⟩ payload contentType hfront]
      exact Simulates.fromResult _ _ _ rfl

end Erasure

/-- How the answers of the two go together; the states they leave are the same. -/
structure Agrees (r : EStateM.Result Stop (Opening cs) Bytes)
    (r' : EStateM.Result Stop (Opening cs) AppDataOrAlert) : Prop where
  state : after r = after r'
  payload : ∀ p, outcome r = .ok p ↔ outcome r' = .ok (.appData p)
  error : ∀ e, outcome r = .error e → e ≠ .err .invalidRecord → outcome r' = .error e
  alert : ∀ level description, outcome r' = .ok (.alert level description) →
    outcome r = .error (.err .invalidRecord)

def AgreeFrom (x : M cs Bytes) (y : M cs AppDataOrAlert) : Prop := ∀ o, Agrees (x o) (y o)

theorem agrees_of_error (e : Stop) (o : Opening cs) : Agrees (.error e o) (.error e o) :=
  ⟨rfl, fun _ => iff_of_false nofun nofun, fun _ he _ => congrArg _ (Except.error.inj he), nofun⟩

/-- What the one refuses the other may take for anything but application data. -/
theorem agrees_of_invalid {o : Opening cs} {r' : EStateM.Result Stop (Opening cs) AppDataOrAlert}
    (hstate : after r' = o) (hdata : ∀ p, outcome r' ≠ .ok (.appData p)) :
    Agrees (.error (.err .invalidRecord) o) r' where
  state := hstate.symm
  payload p := iff_of_false nofun (hdata p)
  error _ he hne := absurd (Except.error.inj he).symm hne
  alert _ _ _ := rfl

namespace AgreeFrom

variable {α : Type}

theorem throw (e : Stop) : AgreeFrom (throw e : M cs Bytes) (throw e) := agrees_of_error e

/-- Both take the same step first. -/
theorem bind (x : M cs α) {f : α → M cs Bytes} {g : α → M cs AppDataOrAlert}
    (h : ∀ a, AgreeFrom (f a) (g a)) : AgreeFrom (x >>= f) (x >>= g) := by
  intro o
  cases hx : x o with
  | ok a o' =>
      rw [bind_of_ok hx, bind_of_ok hx]
      exact h a o'
  | error e o' =>
      rw [bind_of_error hx, bind_of_error hx]
      exact agrees_of_error e o'

theorem ite {c : Prop} [Decidable c] {x x' : M cs Bytes} {y y' : M cs AppDataOrAlert}
    (h : AgreeFrom x y) (h' : AgreeFrom x' y') :
    AgreeFrom (if c then x else x') (if c then y else y') := by
  split
  · exact h
  · exact h'

end AgreeFrom

theorem keeps_okOr {α : Type} (e : TlsError) (x : Option α) :
    Keeps Eq (okOr e x : M cs α) := by
  cases x with
  | none => exact .throw _
  | some a => exact .pure a

theorem keeps_byteAt (i : Nat) : Keeps Eq (byteAt i : M cs UInt8) := by
  refine Keeps.get.bind fun o => ?_
  cases o.plaintextBuf[i]? with
  | none => exact .throw _
  | some b => exact .pure b

theorem keeps_readAlert (padEnd : Nat) : Keeps Eq (readAlert padEnd : M cs AppDataOrAlert) := by
  unfold readAlert
  split
  · exact .throw _
  · exact (keeps_byteAt 0).bind fun _ => (keeps_okOr _ _).bind fun _ =>
      (keeps_byteAt 1).bind fun _ => (keeps_okOr _ _).bind fun _ => .pure _

theorem readAlert_ne_appData (padEnd : Nat) (o : Opening cs) (p : Bytes) :
    outcome (readAlert padEnd o) ≠ .ok (.appData p) := by
  intro h
  have hrun := outcome_eq_ok h
  unfold readAlert at hrun
  split at hrun
  · cases hrun
  · simp only [bind_eq_ok] at hrun
    obtain ⟨_, _, -, _, _, -, _, _, -, _, _, -, hrun⟩ := hrun
    cases hrun

/-- Run on the same record, schedule and buffer, the two functions agree and leave the same
schedule and buffer behind. -/
theorem decrypt_functions_agree (P : Primitives cs) (encryptedRecord : Bytes) (o : Opening cs) :
    Agrees (decryptApplicationData P encryptedRecord o) (decryptAppDataOrAlert P encryptedRecord o) := by
  have hfrom : AgreeFrom (decryptApplicationData P encryptedRecord)
      (decryptAppDataOrAlert P encryptedRecord) := by
    refine .ite (.throw _) (.ite (.throw _) (.ite (.throw _) (.bind _ fun o => .ite (.throw _) ?_)))
    refine .bind _ fun _ => .bind _ fun key => .bind _ fun nonce => .bind _ fun plaintextLen =>
      .bind _ fun _ => .bind _ fun o => .bind _ fun padEnd => .bind _ fun b => .bind _ fun innerCt => ?_
    -- from here on they differ
    intro o'
    cases innerCt with
    | applicationData => exact ⟨rfl, fun p => by simp [outcome, readInner], nofun, nofun⟩
    | alert => exact agrees_of_invalid (keeps_readAlert padEnd o').symm (readAlert_ne_appData padEnd o')
    | invalid => exact agrees_of_error _ o'
    | changeCipherSpec => exact agrees_of_error _ o'
    | handshake => exact agrees_of_error _ o'
  exact hfrom o

end Opening

end GatoPskTls.Server
