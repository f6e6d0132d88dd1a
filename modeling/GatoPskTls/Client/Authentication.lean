import GatoPskTls.Lib.Precedence
import GatoPskTls.Client.Peer

/-!
# Who has authenticated the server

The checks a client makes while it waits for the server's Finished follow the server's own
messages one by one: nothing records which messages have been seen. What was checked before a
Finished is therefore what the server chose to send before it.
-/
namespace GatoPskTls

open Stateful ParseBuffer Precedence

variable {cs : TlsCipherSuite} {π : Type}

namespace ServerHandshake

def handshakeType : ServerHandshake cs → HandshakeType
  | serverHello _ => .serverHello
  | encryptedExtensions => .encryptedExtensions
  | newSessionTicket => .newSessionTicket
  | certificate _ => .certificate
  | certificateRequest _ => .certificateRequest
  | certificateVerify _ => .certificateVerify
  | finished _ => .finished

@[simp] theorem handshakeType_withHash (hash : GenericArray cs.hashLen) (m : ServerHandshake cs) :
    (m.withHash hash).handshakeType = m.handshakeType := by
  cases m with
  | _ => rfl

end ServerHandshake

namespace Client

/-- A message of the server, and the bytes it was read from. -/
abbrev Heard (cs : TlsCipherSuite) := ServerHandshake cs × Bytes

namespace Heard

def handshakeType (m : Heard cs) : HandshakeType := m.1.handshakeType

@[simp] theorem handshakeType_mk (m : ServerHandshake cs) (w : Bytes) :
    handshakeType (m, w) = m.handshakeType := rfl

def isFinished (m : Heard cs) : Bool := m.handshakeType == .finished

theorem any_isFinished {messages : List (Heard cs)} :
    messages.any isFinished ↔ .finished ∈ messages.map handshakeType := by
  simp [isFinished]

end Heard

/-- The bytes between two places of a buffer. -/
def bytesRead (buf buf' : ParseBuffer) : Bytes := buf.rest.take (buf.remaining - buf'.remaining)

theorem bytesRead_eq {buf buf' : ParseBuffer} {w : Bytes} (h : Reads buf w buf') :
    bytesRead buf buf' = w := by
  rw [bytesRead, h.remaining_eq, Nat.add_sub_cancel_right, h.rest_eq, List.take_left]

/-- The messages of a protected handshake record, and whether it could be read to its end. -/
def readMessages (cs : TlsCipherSuite) : Nat → ParseBuffer → List (Heard cs) × Bool
  | 0, _ => ([], true)
  | n+1, buf =>
      if buf.remaining > 0 then
        match (ServerHandshake.parse : Parser TlsError (ServerHandshake cs)) buf with
        | .ok message buf' =>
            let later := readMessages cs n buf'
            ((message, bytesRead buf buf') :: later.1, later.2)
        | .error _ _ => ([], false)
      else ([], true)

/-- The handshake messages in a record; an unprotected record is read for its first message
only. -/
def heardIn (P : Primitives cs) (s : KeyScheduleState cs) (f : RecordReader.Fetched) :
    List (Heard cs) :=
  match f.header.contentType with
  | .handshake =>
      match (ServerHandshake.parse : Parser TlsError (ServerHandshake cs)) (new f.body) with
      | .ok message buf' => [(message, bytesRead (new f.body) buf')]
      | .error _ _ => []
  | .applicationData =>
      match openRecord P s ⟨f.header, .wrapWithPos f.body f.body.length⟩ with
      | .ok (.handshake, appData) =>
          (readMessages cs appData.asSlice.length (new appData.asSlice)).1
      | _ => []
  | _ => []

/-- The server's messages in the records that arrive, `n` at most, up to and with the first
record that holds a Finished. -/
def heard (P : Primitives cs) : Nat → Intake → KeyScheduleState cs → List (Heard cs)
  | 0, _, _ => []
  | n+1, i, s =>
      match RecordReader.fetch i with
      | .error _ _ => []
      | .ok f i' =>
          if (heardIn P s f).any Heard.isFinished then heardIn P s f
          else
            heardIn P s f ++ heard P n i'
              (if f.header.contentType = .applicationData then { s with counter := s.counter + 1 }
               else s)

theorem heard_of_fetch {P : Primitives cs} {n : Nat} {i i' : Intake} {s : KeyScheduleState cs}
    {f : RecordReader.Fetched} (h : RecordReader.fetch i = .ok f i') :
    heard P (n + 1) i s =
      if (heardIn P s f).any Heard.isFinished then heardIn P s f
      else
        heardIn P s f ++ heard P n i'
          (if f.header.contentType = .applicationData then { s with counter := s.counter + 1 }
           else s) := by
  simp only [heard, h]

/-- The types of the messages in one record, and of those in all of them. -/
def carriedBy (P : Primitives cs) (s : KeyScheduleState cs) (f : RecordReader.Fetched) :
    List HandshakeType := (heardIn P s f).map Heard.handshakeType

def serverFlight (P : Primitives cs) (n : Nat) (i : Intake) (s : KeyScheduleState cs) :
    List HandshakeType := (heard P n i s).map Heard.handshakeType

def Check.of : HandshakeType → Option Check
  | .certificate => some .certificate
  | .certificateVerify => some .signature
  | .finished => some .finished
  | _ => none

theorem Check.of_injective (t t' : HandshakeType) (check : Check) (h : Check.of t = some check)
    (h' : Check.of t' = some check) : t = t' := by
  cases t <;> cases h <;> cases t' <;> first | rfl | cases h'

/-- The checks the messages of a server ask for. -/
def checksFor (messages : List HandshakeType) : List Check := messages.filterMap Check.of

/-- Whenever the verifier is asked for, it is there. -/
def CryptoProvider.Verifies (pr : CryptoProvider π) : Prop :=
  ∀ p, ∃ p', pr.verifier p = .ok () p'

namespace Verifying

theorem checkWith_eq_ok {pr : CryptoProvider π} (hpr : pr.Verifies) {check : Check}
    {verify : EStateM Stop π Unit} {v v' : Verifying π}
    (h : checkWith pr check verify v = .ok () v') :
    v'.checks = check :: v.checks ∧ v'.state = v.state := by
  obtain ⟨p, hp⟩ := hpr v.provider
  simp only [checkWith, hp] at h
  split at h
  · cases h
    exact ⟨rfl, rfl⟩
  · cases h

theorem finish_eq_ok {transcript : Bytes} {v v' : Verifying π} (h : finish transcript v = .ok () v') :
    v'.checks = .finished :: v.checks ∧ v'.state ≠ .serverVerify := by
  simp only [finish, modify_apply, EStateM.Result.ok.injEq, true_and] at h
  subst h
  split
  · exact ⟨rfl, nofun⟩
  · exact ⟨rfl, nofun⟩

end Verifying

/-- After the messages `ms` of the server: their checks have been made in their order, and
`ServerVerify` has been left if a Finished was among them. -/
structure Followed (ms : List HandshakeType) (r r' : Reading cs (Verifying π)) : Prop where
  checks : r'.captured.checks = (checksFor ms).reverse ++ r.captured.checks
  stays : .finished ∉ ms → r'.captured.state = r.captured.state
  leaves : .finished ∈ ms → r'.captured.state ≠ .serverVerify

theorem Followed.append {ms ms' : List HandshakeType} {r r' r'' : Reading cs (Verifying π)}
    (h : Followed ms r r') (h' : Followed ms' r' r'') : Followed (ms ++ ms') r r'' where
  checks := by
    rw [h'.checks, h.checks]
    simp [checksFor]
  stays := fun hf => by
    simp only [List.mem_append, not_or] at hf
    rw [h'.stays hf.2, h.stays hf.1]
  leaves := fun hf => by
    by_cases hlast : .finished ∈ ms'
    · exact h'.leaves hlast
    · rw [h'.stays hlast]
      exact h.leaves ((List.mem_append.mp hf).resolve_right hlast)

theorem Followed.refl (r : Reading cs (Verifying π)) : Followed [] r r := ⟨rfl, fun _ => rfl, nofun⟩

section Steps

variable {P : Primitives cs} {pr : CryptoProvider π} (hpr : pr.Verifies)
include hpr

/-- A message the callback accepts has been checked as its type demands. -/
theorem verifyMessage_followed {m : ServerHandshake cs} {r r' : Reading cs (Verifying π)}
    (h : verifyMessage P pr m r = .ok () r') : Followed [m.handshakeType] r r' := by
  cases m with
  | serverHello hello => cases h
  | newSessionTicket => cases h
  | encryptedExtensions =>
      cases h
      exact ⟨rfl, fun _ => rfl, by simp [ServerHandshake.handshakeType]⟩
  | certificate certificate =>
      simp only [verifyMessage, get_bind_apply] at h
      obtain ⟨v, hv, rfl⟩ := onPart_eq_ok.mp h
      obtain ⟨hchecks, hstate⟩ := Verifying.checkWith_eq_ok hpr hv
      exact ⟨hchecks, fun _ => hstate, by simp [ServerHandshake.handshakeType]⟩
  | certificateVerify verify =>
      simp only [verifyMessage] at h
      obtain ⟨v, hv, rfl⟩ := onPart_eq_ok.mp h
      obtain ⟨hchecks, hstate⟩ := Verifying.checkWith_eq_ok hpr hv
      exact ⟨hchecks, fun _ => hstate, by simp [ServerHandshake.handshakeType]⟩
  | certificateRequest request =>
      simp only [verifyMessage] at h
      obtain ⟨v, hv, rfl⟩ := onPart_eq_ok.mp h
      simp only [Verifying.storeRequest, bind_eq_ok, fromResult_eq_ok] at hv
      obtain ⟨_, _, ⟨-, rfl⟩, hv⟩ := hv
      cases hv
      exact ⟨rfl, fun _ => rfl, by simp [ServerHandshake.handshakeType]⟩
  | finished finished =>
      simp only [verifyMessage, get_bind_apply, bind_eq_ok, fromResult_eq_ok] at h
      obtain ⟨verified, _, ⟨-, rfl⟩, h⟩ := h
      split at h
      · obtain ⟨v, hv, rfl⟩ := onPart_eq_ok.mp h
        obtain ⟨hchecks, hstate⟩ := Verifying.finish_eq_ok hv
        exact ⟨hchecks, by simp [ServerHandshake.handshakeType], fun _ => hstate⟩
      · cases h

end Steps

/-- The messages have been taken one after the other, each standing in the transcript when the
callback sees it. -/
inductive Hears (P : Primitives cs) (pr : CryptoProvider π) :
    List (Heard cs) → Reading cs (Verifying π) → Reading cs (Verifying π) → Prop
  | nil (r : Reading cs (Verifying π)) : Hears P pr [] r r
  | cons {message : ServerHandshake cs} {w : Bytes} {messages : List (Heard cs)}
      {r r₁ r₂ : Reading cs (Verifying π)}
      (first : verifyMessage P pr (message.withHash (P.hash r.schedule.transcriptHash))
        { r with schedule.transcriptHash := r.schedule.transcriptHash ++ w } = .ok () r₁)
      (rest : Hears P pr messages r₁ r₂) : Hears P pr ((message, w) :: messages) r r₂

section Hearing

variable {P : Primitives cs} {pr : CryptoProvider π} {r r' : Reading cs (Verifying π)}

theorem Hears.append {xs ys : List (Heard cs)} (h : Hears P pr (xs ++ ys) r r') :
    ∃ r₁, Hears P pr xs r r₁ ∧ Hears P pr ys r₁ r' := by
  induction xs generalizing r with
  | nil => exact ⟨r, .nil r, h⟩
  | cons m xs ih =>
      cases h with
      | cons first rest =>
          obtain ⟨r₁, hxs, hys⟩ := ih rest
          exact ⟨r₁, .cons first hxs, hys⟩

/-- Every message of a record is heard. -/
theorem deliverMessages_hears {n : Nat} {buf : ParseBuffer}
    (h : deliverMessages P (verifyRecord P pr) n buf r = .ok () r') :
    Hears P pr (readMessages cs n buf).1 r r' := by
  induction n generalizing buf r with
  | zero =>
      cases h
      exact .nil _
  | succ n ih =>
      rw [deliverMessages] at h
      rw [readMessages]
      split at h
      next hrem =>
        rw [if_pos hrem]
        obtain ⟨⟨m, buf'⟩, r₁, hm, h⟩ := bind_eq_ok.mp h
        obtain ⟨_, r₂, hcb, hrest⟩ := bind_eq_ok.mp h
        simp only [Reading.readMessage] at hm
        split at hm
        next message digest buf₁ hread =>
          cases hm
          obtain ⟨parsed, hparse, rfl⟩ := ServerHandshake.read_parse hread
          obtain ⟨w, -, hreads, rfl⟩ := ServerHandshake.read_eq_ok hread
          simp only [hparse, bytesRead_eq hreads]
          exact .cons hcb (ih hrest)
        · cases hm
      next hrem =>
        cases h
        rw [if_neg hrem]
        exact .nil _

/-- A record that was accepted has been heard from its first message to its last. -/
theorem decryptRecord_hears {f : RecordReader.Fetched} {record : ServerRecord cs} {t : Bytes}
    (hd : ServerRecord.Decodes P f.header f.body r.schedule.transcriptHash record t)
    (h : decryptRecord P (verifyRecord P pr) record { r with schedule.transcriptHash := t } =
      .ok () r') :
    ∃ r₁, Hears P pr (heardIn P r.schedule.state f) r r₁ ∧
      r'.schedule.transcriptHash = r₁.schedule.transcriptHash ∧ r'.captured = r₁.captured := by
  cases hd with
  | changeCipherSpec hc =>
      cases h
      rw [heardIn, hc]
      exact ⟨_, .nil _, rfl, rfl⟩
  | alert hc ha => cases h
  | @handshake m digest hc hm =>
      obtain ⟨b, hread⟩ := ServerRecord.parsed_eq_ok.mp hm
      obtain ⟨parsed, hparse, rfl⟩ := ServerHandshake.read_parse hread
      obtain ⟨w, -, hreads, rfl⟩ := ServerHandshake.read_eq_ok hread
      simp only [heardIn, hc, hparse, bytesRead_eq hreads]
      exact ⟨r', .cons h (.nil _), rfl, rfl⟩
  | applicationData hc =>
      obtain ⟨contentType, appData, r₁, hopen, hdeliver, hcount⟩ := decryptRecord_eq_ok.mp h
      obtain ⟨s, -, rfl⟩ := onPart_eq_ok.mp hcount
      refine ⟨r₁, ?_, rfl, rfl⟩
      cases contentType with
      | handshake =>
          simp only [heardIn, hc, hopen]
          exact deliverMessages_hears hdeliver
      | applicationData => cases hdeliver
      | alert =>
          rw [deliver] at hdeliver
          obtain ⟨_, _, -, hcb⟩ := bind_eq_ok.mp hdeliver
          cases hcb
      | invalid => cases hdeliver
      | changeCipherSpec => cases hdeliver

/-- Messages that were heard have been followed. -/
theorem Hears.followed (hpr : pr.Verifies) {messages : List (Heard cs)} (h : Hears P pr messages r r') :
    Followed (messages.map Heard.handshakeType) r r' := by
  induction h with
  | nil r => exact .refl r
  | @cons message w messages r r₁ r₂ first rest ih =>
      have hfirst := verifyMessage_followed hpr first
      rw [ServerHandshake.handshakeType_withHash] at hfirst
      have hsame : Followed [message.handshakeType] r r₁ :=
        ⟨hfirst.checks, hfirst.stays, hfirst.leaves⟩
      exact hsame.append ih

end Hearing

/-- The turns `open` takes in `ServerVerify`, `n` of them at most. -/
def verifyServer (P : Primitives cs) (pr : CryptoProvider π) : Nat → Opening.M cs π State
  | 0 => pure .serverVerify
  | n+1 => do
      let state ← Opening.process P pr .serverVerify
      if state = .serverVerify then verifyServer P pr n else pure state

/-- One turn of `ServerVerify` hears one record, and nothing is sent. -/
theorem Opening.process_serverVerify_hears {P : Primitives cs} {pr : CryptoProvider π}
    {o o' : Opening cs π} {state : State} (h : process P pr .serverVerify o = .ok state o') :
    ∃ f r, RecordReader.fetch o.channel.intake = .ok f o'.channel.intake ∧
      Hears P pr (heardIn P o.channel.schedule.serverState.state f) o.reading r ∧
      r.captured = ⟨o'.handshake, o'.provider, state, o'.checks⟩ ∧
      r.schedule.transcriptHash = o'.channel.schedule.serverState.transcriptHash ∧
      o'.channel.schedule.serverState.state =
        (if f.header.contentType = .applicationData then
          { o.channel.schedule.serverState.state with
            counter := o.channel.schedule.serverState.state.counter + 1 }
         else o.channel.schedule.serverState.state) ∧
      Channel.SameOutput o.channel o'.channel := by
  obtain ⟨⟨start, record⟩, o₁, hread, hprocess⟩ := bind_eq_ok.mp h
  obtain ⟨c, hc, rfl⟩ := onPart_eq_ok.mp hread
  obtain ⟨f, intake, transcript, hfetch, rfl, hdecodes, rfl⟩ := Channel.read_eq_ok hc
  obtain ⟨r', hr', rfl⟩ := onPart_eq_ok.mp (handleProcessingError_eq_ok hprocess)
  obtain ⟨_, r₁, hdecrypt, hstate⟩ := bind_eq_ok.mp hr'
  cases hstate
  obtain ⟨r, hhears, htranscript, hcaptured⟩ :=
    @decryptRecord_hears _ _ P pr o.reading _ f record transcript hdecodes hdecrypt
  refine ⟨f, r, hfetch, hhears, hcaptured.symm, htranscript.symm, ?_, ⟨rfl, rfl, rfl, rfl⟩⟩
  exact decryptRecord_keys (keeps_verifyRecord P pr) hdecodes hdecrypt

/-- When the run leaves `ServerVerify`, the checks made are those of the server's messages. -/
theorem verifyServer_checks {P : Primitives cs} {pr : CryptoProvider π} (hpr : pr.Verifies) {n : Nat}
    {o o' : Opening cs π} {state : State} (h : verifyServer P pr n o = .ok state o')
    (hs : state ≠ .serverVerify) :
    o'.checks = (checksFor (serverFlight P n o.channel.intake
      o.channel.schedule.serverState.state)).reverse ++ o.checks := by
  induction n generalizing o with
  | zero =>
      cases h
      exact absurd rfl hs
  | succ n ih =>
      simp only [verifyServer, bind_eq_ok] at h
      obtain ⟨state₁, o₁, hturn, h⟩ := h
      obtain ⟨f, r, hfetch, hhears, hcaptured, -, hkeys, -⟩ :=
        Opening.process_serverVerify_hears hturn
      have hfollowed := hhears.followed hpr
      have hchecks : o₁.checks = _ := hcaptured ▸ hfollowed.checks
      have hstays : _ → state₁ = .serverVerify := hcaptured ▸ hfollowed.stays
      have hleaves : _ → state₁ ≠ .serverVerify := hcaptured ▸ hfollowed.leaves
      rw [serverFlight, heard_of_fetch hfetch, ← hkeys]
      by_cases hfinished : (heardIn P o.channel.schedule.serverState.state f).any Heard.isFinished
      · rw [if_neg (hleaves (Heard.any_isFinished.mp hfinished))] at h
        cases h
        rw [if_pos hfinished, hchecks]
        rfl
      · rw [if_pos (hstays (mt Heard.any_isFinished.mpr hfinished))] at h
        rw [if_neg hfinished, ih h, hchecks]
        simp [checksFor, serverFlight, Opening.reading]

/-- Before every Finished the client accepted, it had accepted a certificate and, after it, a
signature. The newest check stands first. -/
def Authenticated (checks : List Check) : Prop :=
  Precede [.certificate, .signature] .finished checks.reverse

/-- A server without a pre-shared key counts as verified exactly after the checks its own
messages asked for: they are the right ones if and only if it sent a Certificate and then a
CertificateVerify before its Finished. -/
theorem authenticated_iff_flight {P : Primitives cs} {pr : CryptoProvider π} (hpr : pr.Verifies)
    {n : Nat} {o o' : Opening cs π} {state : State} (hstart : o.checks = [])
    (h : verifyServer P pr n o = .ok state o')
    (hs : state = .clientCert ∨ state = .clientFinished) :
    Authenticated o'.checks ↔ Precede [.certificate, .certificateVerify] .finished
      (serverFlight P n o.channel.intake o.channel.schedule.serverState.state) := by
  have hleft : state ≠ .serverVerify := by
    rcases hs with rfl | rfl <;> nofun
  have hchecks := verifyServer_checks hpr h hleft
  rw [hstart, List.append_nil] at hchecks
  rw [Authenticated, hchecks, List.reverse_reverse]
  exact precede_filterMap Check.of_injective rfl rfl

theorem full_flight_authenticates :
    Authenticated (after (verifyServer Peer.suite (Peer.provider true) 1 (Peer.opening
      (Peer.flight (Peer.encryptedExtensions ++ Peer.certificate ++ Peer.certificateVerify))))).checks := by
  have hrun := outcome_eq_ok (show outcome (verifyServer Peer.suite (Peer.provider true) 1
    (Peer.opening (Peer.flight
      (Peer.encryptedExtensions ++ Peer.certificate ++ Peer.certificateVerify)))) =
    .ok .clientFinished by decide +kernel)
  refine (authenticated_iff_flight (fun p => ⟨p, rfl⟩) rfl hrun (.inr rfl)).mpr ?_
  have hflight : serverFlight Peer.suite 1 (Peer.opening (Peer.flight (Peer.encryptedExtensions ++
      Peer.certificate ++ Peer.certificateVerify))).channel.intake
      Peer.installed.serverState.state =
      [.encryptedExtensions, .certificate, .certificateVerify, .finished] := by decide +kernel
  exact hflight ▸ (by decide : Precede [.certificate, .certificateVerify] HandshakeType.finished
    [.encryptedExtensions, .certificate, .certificateVerify, .finished])

/-- A record with nothing but a Finished is enough, although the provider would have turned
down every certificate and every signature. -/
theorem finished_alone_accepted :
    (Peer.provider false).Verifies ∧ outcome (verifyServer Peer.suite (Peer.provider false) 1 (Peer.opening (Peer.flight []))) =
        .ok .clientFinished ∧
      ¬Authenticated (after (verifyServer Peer.suite (Peer.provider false) 1
        (Peer.opening (Peer.flight [])))).checks := by
  refine ⟨fun p => ⟨p, rfl⟩, by decide +kernel, fun h => ?_⟩
  have hchecks : (after (verifyServer Peer.suite (Peer.provider false) 1
      (Peer.opening (Peer.flight [])))).checks = [.finished] := by decide +kernel
  rw [hchecks] at h
  cases h [] [] rfl

end Client

end GatoPskTls
