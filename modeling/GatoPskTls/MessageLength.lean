import GatoPskTls.Handshake
import GatoPskTls.Aead

/-!
# The length of a handshake message

A handshake message says how long it is, and the fields of its body say it again. The parser
goes by the fields and never compares the two.
-/
namespace GatoPskTls

open Stateful BigEndian ParseBuffer

variable {cs : TlsCipherSuite}

/-- A field of a message: of a fixed width, or a vector behind its length. -/
inductive Field
  | fixed (n : Nat)
  | vector (w : Nat)
  deriving DecidableEq, Repr

/-- Where the field that starts at `start` ends. -/
def Field.ends (body : Bytes) (start : Nat) : Field → Nat
  | fixed n => start + n
  | vector w => start + w + fromBigEndian ((body.drop start).take w)

/-- Where the last of some fields ends. -/
def fieldsEnd (fields : List Field) (body : Bytes) (start : Nat) : Nat :=
  fields.foldl (Field.ends body) start

/-- The fields of each message a server sends. -/
def HandshakeType.layout (cs : TlsCipherSuite) : HandshakeType → List Field
  -- version, random, session id, cipher suite, compression method, extensions
  | .serverHello => [.fixed 2, .fixed 32, .vector 1, .fixed 2, .fixed 1, .vector 2]
  -- lifetime, age, nonce, ticket, extensions
  | .newSessionTicket => [.fixed 4, .fixed 4, .vector 1, .vector 2, .vector 2]
  | .encryptedExtensions => [.vector 2]
  -- request context, entries
  | .certificate => [.vector 1, .vector 3]
  -- request context, extensions
  | .certificateRequest => [.vector 1, .vector 2]
  -- signature scheme, signature
  | .certificateVerify => [.fixed 2, .vector 2]
  | .finished => [.fixed cs.hashLen]
  | _ => []

/-- The length a message says it has. -/
def declaredLength (message : Bytes) : Nat := fromBigEndian ((message.drop 1).take 3)

/-- The length the fields of a message's body add up to. -/
def bodyLength (cs : TlsCipherSuite) (message : Bytes) : Nat :=
  match message.head?.bind HandshakeType.of with
  | some handshakeType => fieldsEnd (handshakeType.layout cs) (message.drop 4) 0
  | none => 0

namespace ParseBuffer

variable {ε ε' α β : Type}

/-- `b` stands `n` bytes behind `b₀`. -/
def Behind (b₀ : ParseBuffer) (n : Nat) (b : ParseBuffer) : Prop :=
  ∃ w : Bytes, w.length = n ∧ Reads b₀ w b

theorem Behind.zero (b : ParseBuffer) : Behind b 0 b := ⟨[], rfl, .refl b⟩

theorem Behind.reads {b₀ b b' : ParseBuffer} {n : Nat} {w : Bytes} (h : Behind b₀ n b)
    (hw : Reads b w b') : Behind b₀ (n + w.length) b' := by
  obtain ⟨u, rfl, hu⟩ := h
  exact ⟨u ++ w, List.length_append, hu.trans hw⟩

theorem Behind.rest {b₀ b : ParseBuffer} {n : Nat} (h : Behind b₀ n b) :
    b₀.rest.drop n = b.rest := by
  obtain ⟨u, rfl, hu⟩ := h
  rw [hu.rest_eq, List.drop_left]

/-- A parser that goes over the given fields. -/
def Spans (fields : List Field) (p : Parser ε α) : Prop :=
  ∀ (b₀ b b' : ParseBuffer) (n : Nat) (a : α), Behind b₀ n b → p b = .ok a b' →
    Behind b₀ (fieldsEnd fields b₀.rest n) b'

namespace Spans

variable {fields : List Field}

theorem pure (a : α) : Spans [] (Pure.pure a : Parser ε α) := by
  intro b₀ b b' n a hb h
  cases h
  exact hb

theorem throw (e : ε) : Spans fields (MonadExcept.throw e : Parser ε α) := by
  intro b₀ b b' n a hb h
  cases h

theorem within (data : ParseBuffer) (p : Parser ε α) : Spans [] (ParseBuffer.within data p) := by
  intro b₀ b b' n a hb h
  obtain ⟨rfl, -⟩ := within_eq_ok.mp h
  exact hb

theorem map {p : Parser ε α} (hp : Spans fields p) (f : α → β) :
    Spans fields (do return f (← p)) := by
  intro b₀ b b' n a hb h
  obtain ⟨_, _, hfirst, ⟨⟩⟩ := bind_eq_ok.mp h
  exact hp _ _ _ _ _ hb hfirst

/-- A field of a fixed width in front of the others. -/
theorem fixed {p : Parser ε α} {k : α → Parser ε β} {n : Nat}
    (hp : ∀ {b b' a}, p b = .ok a b' → ∃ w : Bytes, w.length = n ∧ Reads b w b')
    (hk : ∀ a, Spans fields (k a)) : Spans (.fixed n :: fields) (p >>= k) := by
  intro b₀ b b' off a hb h
  obtain ⟨x, b₁, hfirst, hrest⟩ := bind_eq_ok.mp h
  obtain ⟨w, rfl, hw⟩ := hp hfirst
  exact hk x _ _ _ _ _ (hb.reads hw) hrest

/-- A vector in front of the others: its length, and as many bytes. -/
theorem vector {p : Parser ε α} {q : α → Parser ε ParseBuffer} {k : α → ParseBuffer → Parser ε β}
    {w : Nat} (num : α → Nat)
    (hp : ∀ {b b' a}, p b = .ok a b' → num a < 256 ^ w ∧ Reads b (bigEndian w (num a)) b')
    (hq : ∀ {a b b' s}, q a b = .ok s b' → ∃ v : Bytes, v.length = num a ∧ Reads b v b')
    (hk : ∀ a s, Spans fields (k a s)) :
    Spans (.vector w :: fields) (p >>= fun a => q a >>= k a) := by
  intro b₀ b b' off a hb h
  obtain ⟨x, b₁, hlength, h⟩ := bind_eq_ok.mp h
  obtain ⟨s, b₂, hdata, hrest⟩ := bind_eq_ok.mp h
  obtain ⟨hlt, hx⟩ := hp hlength
  obtain ⟨v, hv, hs⟩ := hq hdata
  have hfield : fromBigEndian ((b₀.rest.drop off).take w) = num x := by
    rw [hb.rest, hx.rest_eq, List.take_left' (bigEndian_length _ _), fromBigEndian_bigEndian,
      Nat.mod_eq_of_lt hlt]
  have hbehind := (hb.reads hx).reads hs
  rw [bigEndian_length, hv, ← hfield] at hbehind
  exact hk x s _ _ _ _ _ hbehind hrest

end Spans

theorem readU16_width {g : ParseError → ε} {b b' : ParseBuffer} {v : Nat}
    (h : mapError g readU16 b = .ok v b') : ∃ w : Bytes, w.length = 2 ∧ Reads b w b' :=
  ⟨_, bigEndian_length _ _, (readU16_eq_ok.mp (mapError_eq_ok.mp h)).2⟩

theorem readU32_width {g : ParseError → ε} {b b' : ParseBuffer} {v : Nat}
    (h : mapError g readU32 b = .ok v b') : ∃ w : Bytes, w.length = 4 ∧ Reads b w b' :=
  ⟨_, bigEndian_length _ _, (readU32_eq_ok.mp (mapError_eq_ok.mp h)).2⟩

theorem readU8_width {g : ParseError → ε} {b b' : ParseBuffer} {v : UInt8}
    (h : mapError g readU8 b = .ok v b') : ∃ w : Bytes, w.length = 1 ∧ Reads b w b' :=
  ⟨[v], rfl, readU8_eq_ok.mp (mapError_eq_ok.mp h)⟩

theorem fill_width {g : ParseError → ε} {b b' : ParseBuffer} {n : Nat} {v : GenericArray n}
    (h : mapError g (fill n) b = .ok v b') : ∃ w : Bytes, w.length = n ∧ Reads b w b' :=
  ⟨v.val, v.property, fill_eq_ok.mp (mapError_eq_ok.mp h)⟩

theorem readEnum16_width {g : ParseError → ε} {of : Nat → Option α} {b b' : ParseBuffer} {a : α}
    (h : mapError g (readEnum16 of) b = .ok a b') : ∃ w : Bytes, w.length = 2 ∧ Reads b w b' := by
  obtain ⟨v, b₁, hread, hof⟩ := bind_eq_ok.mp (mapError_eq_ok.mp h)
  have hw := (readU16_eq_ok.mp hread).2
  cases hfound : of v with
  | none =>
      rw [hfound] at hof
      cases hof
  | some c =>
      rw [hfound] at hof
      cases hof
      exact ⟨_, bigEndian_length _ _, hw⟩

theorem readU8_length {g : ParseError → ε} {b b' : ParseBuffer} {v : UInt8}
    (h : mapError g readU8 b = .ok v b') :
    v.toNat < 256 ^ 1 ∧ Reads b (bigEndian 1 v.toNat) b' := by
  refine ⟨v.toNat_lt, ?_⟩
  have hv := readU8_eq_ok.mp (mapError_eq_ok.mp h)
  simpa [bigEndian] using hv

theorem slice_length {g : ParseError → ε} {b b' s : ParseBuffer} {n : Nat}
    (h : mapError g (slice n) b = .ok s b') : ∃ v : Bytes, v.length = n ∧ Reads b v b' := by
  obtain ⟨v, -, hv, hreads⟩ := slice_eq_ok.mp (mapError_eq_ok.mp h)
  exact ⟨v, hv, hreads⟩

theorem spans_parseVector (group : ExtensionGroup α) (N : Nat) :
    Spans [.vector 2] (group.parseVector N) :=
  .vector id (fun h => readU16_eq_ok.mp (mapError_eq_ok.mp h)) slice_length fun _ _ => .within _ _

end ParseBuffer

namespace ServerHandshake

theorem spans_serverHello : Spans (HandshakeType.serverHello.layout cs) ServerHello.parse :=
  .fixed readU16_width fun _ => .fixed fill_width fun _ =>
    .vector UInt8.toNat readU8_length slice_length fun _ _ => .fixed readEnum16_width fun _ =>
      .fixed readU8_width fun _ => (spans_parseVector _ 4).map _

theorem spans_newSessionTicket :
    Spans (HandshakeType.newSessionTicket.layout cs) NewSessionTicket.parse :=
  .fixed readU32_width fun _ => .fixed readU32_width fun _ =>
    .vector UInt8.toNat readU8_length slice_length fun _ _ =>
      .vector id (fun h => readU16_eq_ok.mp (mapError_eq_ok.mp h)) slice_length fun _ _ =>
        (spans_parseVector _ 1).map _

theorem spans_certificate : Spans (HandshakeType.certificate.layout cs) CertificateRef.parse :=
  .vector UInt8.toNat readU8_length slice_length fun _ _ =>
    .vector id (fun h => readU24_eq_ok.mp (mapError_eq_ok.mp h)) slice_length fun _ _ =>
      (Spans.within _ _).map _

theorem spans_certificateRequest :
    Spans (HandshakeType.certificateRequest.layout cs) CertificateRequestRef.parse :=
  .vector UInt8.toNat readU8_length slice_length fun _ _ => (spans_parseVector _ 6).map _

theorem spans_certificateVerify :
    Spans (HandshakeType.certificateVerify.layout cs) CertificateVerifyRef.parse :=
  .fixed readEnum16_width fun _ =>
    .vector id (fun h => readU16_eq_ok.mp (mapError_eq_ok.mp h)) slice_length fun _ _ => .pure _

/-- Each body parser goes over the fields of its message. -/
theorem spans_parseBody (t : HandshakeType) :
    Spans (t.layout cs) (parseBody t : Parser TlsError (ServerHandshake cs)) := by
  cases t with
  | serverHello => exact spans_serverHello.map _
  | newSessionTicket => exact spans_newSessionTicket.map _
  | encryptedExtensions => exact ((spans_parseVector _ 16).map _).map _
  | certificate => exact spans_certificate.map _
  | certificateRequest => exact spans_certificateRequest.map _
  | certificateVerify => exact spans_certificateVerify.map _
  | finished => exact (Spans.fixed fill_width fun _ => .pure _).map _
  | _ => exact .throw _

/-- A message that was parsed is as long as its fields say, whatever it says itself. -/
theorem parse_length {b b' : ParseBuffer} {m : ServerHandshake cs} (h : parse b = .ok m b') :
    Behind b (4 + bodyLength cs b.rest) b' := by
  simp only [parse, bind_eq_ok, mapError_eq_ok, HandshakeType.parse, readEnum8_eq_ok,
    readU24_eq_ok] at h
  obtain ⟨t, b₁, ⟨v, hof, hv⟩, n, b₂, ⟨hn, hlength⟩, hbody⟩ := h
  have hheader := hv.trans hlength
  have hbodyRest : b.rest.drop 4 = b₂.rest := by
    rw [hheader.rest_eq, List.drop_left' (by simp)]
  have hend := spans_parseBody t _ _ _ _ _ (.zero b₂) hbody
  have hfields : bodyLength cs b.rest = fieldsEnd (t.layout cs) b₂.rest 0 := by
    rw [bodyLength, hbodyRest, hheader.rest_eq]
    simp [hof]
  obtain ⟨w, hw, hreads⟩ := hend
  refine ⟨[v] ++ bigEndian 3 n ++ w, ?_, hheader.trans hreads⟩
  rw [hfields, ← hw]
  simp
  omega

/-- A message is framed by its length: as many bytes are gone over, and hashed. -/
structure Framed (digest digest' : Bytes) (b b' : ParseBuffer) : Prop where
  consumed : b'.pos = b.pos + (4 + declaredLength b.rest)
  hashed : digest' = digest ++ b.rest.take (4 + declaredLength b.rest)

/-- A message that is read is framed by its length exactly when that is the length its fields
add up to. -/
theorem framed_iff_declaredLength {P : Primitives cs} {digest digest' : Bytes}
    {b b' : ParseBuffer} {m : ServerHandshake cs} (h : read P digest b = .ok (m, digest') b') :
    Framed digest digest' b b' ↔ declaredLength b.rest = bodyLength cs b.rest := by
  obtain ⟨parsed, hparse, -⟩ := read_parse h
  obtain ⟨w, hlen, hw⟩ := parse_length hparse
  obtain ⟨w', -, hw', hdigest⟩ := read_eq_ok h
  obtain rfl : w' = w := (hw'.unique hw (by
    have := hw'.pos_eq.symm.trans hw.pos_eq
    omega)).1
  constructor
  · intro hframed
    have := hframed.consumed.symm.trans hw.pos_eq
    omega
  · intro hsame
    rw [← hsame] at hlen
    exact ⟨by rw [hw.pos_eq, hlen], by rw [hdigest, ← hlen, hw.rest_eq, List.take_left]⟩

theorem not_framed_of_pos {P : Primitives cs} {b : ParseBuffer} {n : Nat}
    (hok : (outcome (read P [] b)).isOk) (hpos : (after (read P [] b)).pos = n)
    (hne : n ≠ b.pos + (4 + declaredLength b.rest)) :
    ∃ m digest b', read P [] b = .ok (m, digest) b' ∧ b'.pos = n ∧ ¬Framed [] digest b b' := by
  cases hrun : read P [] b with
  | error e b' =>
      rw [hrun] at hok
      cases hok
  | ok out b' =>
      rw [hrun] at hpos
      exact ⟨out.1, out.2, b', rfl, hpos, fun hframed => hne (hpos.symm.trans hframed.consumed)⟩

/-- A Finished that says it is empty is read to the end of its MAC, and an EncryptedExtensions
that says it goes on is read to the end of its list only. -/
theorem misframed_messages_read :
    let P := Primitives.checksumming .aes128GcmSha256
    (∃ m digest b', read P [] (new ([20, 0, 0, 0] ++ List.replicate 32 7)) = .ok (m, digest) b' ∧
      b'.pos = 36 ∧ ¬Framed [] digest (new ([20, 0, 0, 0] ++ List.replicate 32 7)) b') ∧
    ∃ m digest b', read P [] (new [8, 0, 0, 6, 0, 0, 1, 2, 3, 4]) = .ok (m, digest) b' ∧
      b'.pos = 6 ∧ ¬Framed [] digest (new [8, 0, 0, 6, 0, 0, 1, 2, 3, 4]) b' := by
  intro P
  constructor
  · exact not_framed_of_pos (by decide +kernel) (by decide +kernel) (by decide +kernel)
  · exact not_framed_of_pos (by decide +kernel) (by decide +kernel) (by decide +kernel)

theorem finished_message_framed :
    let P := Primitives.checksumming .aes128GcmSha256
    let message := [20, 0, 0, 32] ++ List.replicate 32 7
    ∃ m digest b', read P [1, 2] (new message) = .ok (m, digest) b' ∧
      Framed [1, 2] digest (new message) b' := by
  intro P message
  have hok : (outcome (read P [1, 2] (new message))).isOk := by decide +kernel
  cases hrun : read P [1, 2] (new message) with
  | error e b' =>
      rw [hrun] at hok
      cases hok
  | ok out b' =>
      exact ⟨out.1, out.2, b', rfl, (framed_iff_declaredLength hrun).mpr (by decide +kernel)⟩

end ServerHandshake

end GatoPskTls
