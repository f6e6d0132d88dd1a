import GatoPskTls.HelloAgreement
import GatoPskTls.Server.Calls
import GatoPskTls.Server.Peer

/-!
# Server: the client of the crate

The client offers psk_dhe_ke with a share for P-256. The server takes psk_ke, or a share for
X25519.
-/
namespace GatoPskTls.Server

open GatoPskTls

/-- A ClientHello of the client, with the groups it is configured for. -/
def FromClient (msg : Bytes) (groups : List NamedGroup) : Prop :=
  ∃ (cs : TlsCipherSuite) (hello : ClientHello cs) (secret : Bytes) (ids : List Bytes)
    (bs : List (PskBinder cs)), hello.config.namedGroups = groups ∧ ClientHello.Plain hello.config ∧
    hello.config.psk = some (secret, ids) ∧ ids ≠ [] ∧ (∀ id ∈ ids, id ≠ []) ∧
    47 + hello.extensionsLength < 65536 ∧ bs.length = ids.length ∧ msg = hello.finalized bs

theorem parsed_fromClient {msg : Bytes} {groups : List NamedGroup} {hello : ClientHelloRef}
    (h : FromClient msg groups) (hparse : parseClientHello msg = .ok hello) :
    pskKeyExchangeModes hello = some ⟨[.pskDheKe]⟩ ∧ findClientX25519Share hello = .ok none ∧
      supportedGroups hello = some ⟨groups⟩ := by
  obtain ⟨cs, own, secret, ids, bs, rfl, hplain, hpsk, hne, hids, hshort, hcount, rfl⟩ := h
  obtain ⟨start, rest, hrun, -⟩ := @ClientHello.parse_finalized _ _ _ _ _
    CLIENT_HELLO_MAX_EXTENSIONS (by decide) hplain hpsk hne hids hshort hcount
  rw [parseClientHello, hrun] at hparse
  dsimp only at hparse
  split at hparse
  · cases hparse
  · cases hparse
    unfold pskKeyExchangeModes findClientX25519Share supportedGroups keyShare findExtension
    simp only [HelloFields.ref, ClientHello.parsedExtensions, ClientHello.earlierExtensions]
    cases own.config.maxFragmentLength <;> exact ⟨rfl, rfl, rfl⟩

/-- What the two agree on is a retry at most. -/
theorem decideKex_fromClient {msg : Bytes} {groups : List NamedGroup} {hello : ClientHelloRef}
    {config : TlsServerConfig} {sent : Bool} {decision : KexDecision} (h : FromClient msg groups)
    (hparse : parseClientHello msg = .ok hello) (hkex : decideKex hello config sent = .ok decision) :
    decision = .retry .x25519 ∧ .x25519 ∈ groups := by
  obtain ⟨hmodes, hshare, hgroups⟩ := parsed_fromClient h hparse
  have hmode : offersMode .pskDheKe ⟨[.pskDheKe]⟩ = true ∧ offersMode .pskKe ⟨[.pskDheKe]⟩ = false := by
    decide
  simp only [decideKex, clientSupportsGroup, hmodes, hshare, hgroups, hmode, Bool.false_eq_true,
    if_false] at hkex
  split at hkex
  · split at hkex
    next hask =>
      cases hkex
      simp only [Bool.and_eq_true, List.any_beq', List.contains_iff_mem] at hask
      exact ⟨rfl, hask.2⟩
    next => cases hkex
  · cases hkex

/-- No session, however it is configured and whatever has happened in it, sends a flight to a
client of the crate. One that is not configured for X25519 is not even asked to try again. -/
theorem own_client_unserved {cs : TlsCipherSuite} {P : Primitives cs} {X : X25519} {msg : Bytes}
    {groups : List NamedGroup} (hmsg : FromClient msg groups) (config : TlsServerConfig) (out : Bytes)
    (s : Session cs) :
    (∃ stop s', Session.processClientHello P X msg config out s = .error stop s') ∨
      .x25519 ∈ groups ∧ s.hrrState.sent = false ∧
        ∃ bytes s', Session.processClientHello P X msg config out s =
          .ok (.helloRetryRequest bytes) s' := by
  cases hrun : Session.processClientHello P X msg config out s with
  | error stop s' => exact .inl ⟨stop, s', rfl⟩
  | ok answer s' =>
      cases answer with
      | firstFlight bytes =>
          obtain ⟨f, -⟩ := Session.processClientHello_firstFlight.mp hrun
          obtain ⟨hparse, -, -, -, hkex, -⟩ := examine_eq_ok.mp f.examined
          rw [f.decided] at hkex
          cases (decideKex_fromClient hmsg hparse hkex).1
      | helloRetryRequest bytes =>
          obtain ⟨r, -⟩ := Session.processClientHello_retry.mp hrun
          obtain ⟨hparse, -, -, -, hkex, -⟩ := examine_eq_ok.mp r.examined
          exact .inr ⟨(decideKex_fromClient hmsg hparse hkex).2, r.not_sent, bytes, s', rfl⟩

theorem offering_fromClient : FromClient (ClientHello.offering.finalized
    [⟨.zeros _⟩, ⟨.zeros _⟩]) [.secp256r1] :=
  ⟨_, _, _, _, _, rfl, ClientHello.offering_plain, rfl, by decide, by decide, by decide, rfl, rfl⟩

theorem offering_unserved : ∃ stop s', Session.processClientHello Peer.suite Peer.additive
    (ClientHello.offering.finalized [⟨.zeros _⟩, ⟨.zeros _⟩]) Peer.config Peer.room .new =
      .error stop s' :=
  (own_client_unserved offering_fromClient Peer.config Peer.room .new).resolve_right (by simp)

end GatoPskTls.Server
