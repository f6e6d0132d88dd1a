import GatoPskTls.Handshake

/-!
# Records from the server

A record header whose content type has been checked, and what the client makes of a
record: an unprotected handshake message goes into the transcript while it is decoded.
-/
namespace GatoPskTls

open Stateful BigEndian ParseBuffer

variable {cs : TlsCipherSuite}

structure Alert where
  level : AlertLevel
  description : AlertDescription
  deriving DecidableEq, Repr

namespace Alert

def parse : Parser TlsError Alert := do
  let level ← mapError TlsError.parseError readU8
  let desc ← mapError TlsError.parseError readU8
  match AlertLevel.of level, AlertDescription.of desc with
  | some level, some description => pure { level, description }
  | _, _ => throw .decodeError

def encode (alert : Alert) : CryptoBuffer.M Unit := do
  orEncodeError (CryptoBuffer.push alert.level.toU8)
  orEncodeError (CryptoBuffer.push alert.description.toU8)

end Alert

/-- The five bytes in front of a record; their first is a known content type. -/
structure RecordHeader where
  header : GenericArray 5
  contentType : ContentType
  known : header.val.head?.bind ContentType.of = some contentType
  deriving DecidableEq

namespace RecordHeader

def LEN : Nat := 5

def contentLength (h : RecordHeader) : Nat := fromBigEndian (h.header.val.drop 3)

def decode (header : GenericArray 5) : Except TlsError RecordHeader :=
  match h : header.val.head?.bind ContentType.of with
  | none => .error .invalidRecord
  | some contentType => .ok ⟨header, contentType, h⟩

end RecordHeader

structure ApplicationData where
  header : RecordHeader
  data : CryptoBuffer
  deriving DecidableEq

inductive ServerRecord (cs : TlsCipherSuite)
  | handshake (message : ServerHandshake cs)
  | changeCipherSpec
  | alert (alert : Alert)
  | applicationData (data : ApplicationData)
  deriving DecidableEq

namespace ServerRecord

/-- Run a parser from the start of some data. -/
def parsed {α : Type} (p : Parser TlsError α) (data : Bytes) : Except Stop α :=
  (outcome (p (ParseBuffer.new data))).mapError .err

/-- The state is the running transcript. -/
def decode (P : Primitives cs) (header : RecordHeader) (data : Bytes) :
    EStateM Stop Bytes (ServerRecord cs) := do
  if header.contentLength ≠ data.length then throw .panic
  else
    match header.contentType with
    | .invalid => throw (.err .unimplemented)
    | .changeCipherSpec => pure .changeCipherSpec
    | .alert => return .alert (← fromResult (parsed Alert.parse data))
    | .handshake => do
        let (message, digest) ← fromResult (parsed (ServerHandshake.read P (← get)) data)
        set digest
        return .handshake message
    | .applicationData => pure (.applicationData ⟨header, .wrapWithPos data data.length⟩)

theorem parsed_eq_ok {α : Type} {p : Parser TlsError α} {data : Bytes} {a : α} :
    parsed p data = .ok a ↔ ∃ b, p (ParseBuffer.new data) = .ok a b := by
  simp only [parsed]
  cases p (ParseBuffer.new data) with
  | ok c b => simp
  | error e b => simp

theorem parsed_eq_error {α : Type} {p : Parser TlsError α} {data : Bytes} {e : Stop} :
    parsed p data = .error e ↔ ∃ e' b, p (ParseBuffer.new data) = .error e' b ∧ e = .err e' := by
  simp only [parsed]
  cases p (ParseBuffer.new data) with
  | ok c b => simp
  | error e b => simp [eq_comm]

/-- Decoding a body of the length its header says. -/
theorem decode_eq {P : Primitives cs} {header : RecordHeader} {data : Bytes}
    (hlen : data.length = header.contentLength) (t : Bytes) :
    decode P header data t =
      match header.contentType with
      | .invalid => .error (.err .unimplemented) t
      | .changeCipherSpec => .ok .changeCipherSpec t
      | .alert =>
          match parsed Alert.parse data with
          | .ok a => .ok (.alert a) t
          | .error e => .error e t
      | .handshake =>
          match parsed (ServerHandshake.read P t) data with
          | .ok (message, digest) => .ok (.handshake message) digest
          | .error e => .error e t
      | .applicationData => .ok (.applicationData ⟨header, .wrapWithPos data data.length⟩) t := by
  simp only [decode]
  rw [if_neg (not_not.mpr hlen.symm)]
  cases hc : header.contentType with
  | invalid => rfl
  | changeCipherSpec => rfl
  | applicationData => rfl
  | alert =>
      cases hp : parsed Alert.parse data with
      | ok a => rfl
      | error e => rfl
  | handshake =>
      simp only [get_bind_apply]
      cases hp : parsed (ServerHandshake.read P t) data with
      | ok a => rfl
      | error e => rfl

/-- What a record of each kind decodes to, and the transcript after it. -/
inductive Decodes (P : Primitives cs) (header : RecordHeader) (data transcript : Bytes) :
    ServerRecord cs → Bytes → Prop
  | changeCipherSpec : header.contentType = .changeCipherSpec →
      Decodes P header data transcript .changeCipherSpec transcript
  | alert {a : Alert} : header.contentType = .alert → parsed Alert.parse data = .ok a →
      Decodes P header data transcript (.alert a) transcript
  | handshake {message : ServerHandshake cs} {digest : Bytes} : header.contentType = .handshake →
      parsed (ServerHandshake.read P transcript) data = .ok (message, digest) →
      Decodes P header data transcript (.handshake message) digest
  | applicationData : header.contentType = .applicationData →
      Decodes P header data transcript
        (.applicationData ⟨header, .wrapWithPos data data.length⟩) transcript

theorem decode_eq_ok {P : Primitives cs} {header : RecordHeader} {data t t' : Bytes}
    {record : ServerRecord cs} (h : decode P header data t = .ok record t') :
    Decodes P header data t record t' := by
  simp only [decode] at h
  split at h
  · cases h
  cases hc : header.contentType with
  | invalid =>
      simp only [hc] at h
      cases h
  | changeCipherSpec =>
      simp only [hc] at h
      cases h
      exact .changeCipherSpec hc
  | alert =>
      simp only [hc, bind_eq_ok, fromResult_eq_ok] at h
      obtain ⟨a, _, ⟨ha, rfl⟩, h⟩ := h
      cases h
      exact .alert hc ha
  | handshake =>
      simp only [hc, bind_eq_ok, fromResult_eq_ok, get_apply, EStateM.Result.ok.injEq] at h
      obtain ⟨_, _, ⟨rfl, rfl⟩, ⟨m, d⟩, _, ⟨hm, rfl⟩, _, _, hset, h⟩ := h
      cases hset
      cases h
      exact .handshake hc hm
  | applicationData =>
      simp only [hc] at h
      cases h
      exact .applicationData hc

end ServerRecord

end GatoPskTls
