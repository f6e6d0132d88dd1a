import GatoPskTls.Nonce
import GatoPskTls.Server.Noted
import GatoPskTls.Server.Peer

/-!
# Server: nonces

Every encryption of a session carries the key of the current epoch and the next nonce, and no key
is installed twice: each installation has a transcript of its own or another label. A transcript
grows with every ClientHello and every Finished that is accepted; the only time it starts anew is
at the HelloRetryRequest, and from then on it begins with another byte.
-/
namespace GatoPskTls.Server

open GatoPskTls Stateful BigEndian Tracing Demands History Epochs

variable {cs : TlsCipherSuite} {P : Primitives cs} {X : X25519} {σ α : Type}

/-- The key of an epoch; before anything is installed it is the default. -/
def sendKey (P : Primitives cs) : Option (Derivation cs) → GenericArray cs.keyLen
  | none => .zeros _
  | some d => d.key P

def sendIv (P : Primitives cs) : Option (Derivation cs) → GenericArray cs.ivLen
  | none => .zeros _
  | some d => d.iv P

/-- The encryption with the number `n` of an epoch. -/
structure Carries (P : Primitives cs) (opened : Option (Derivation cs)) (n : Nat)
    (u : Encryption cs) : Prop where
  key : u.1 = sendKey P opened
  nonce : u.2.val = xorBytes (sendIv P opened).val (bigEndian cs.ivLen n)
  bound : n < 2 ^ 64

/-- The traffic state is that of the epoch behind the log. -/
structure Tracks (P : Primitives cs) (l : List (Deed cs)) (s : KeyScheduleState cs) : Prop where
  key : s.key = sendKey P (Epoch.first.after l).opened
  iv : s.iv = sendIv P (Epoch.first.after l).opened
  counter : s.counter.toNat = (Epoch.first.after l).count

/-- A log that is in order, whatever the state. -/
structure Orderly (P : Primitives cs) (l : List (Deed cs)) : Prop where
  numbered : Numbered (Carries P) .first l
  nodup : (installs l).Nodup

/-- The transcript begins with the message that stands for the first ClientHello, or with a
ClientHello. -/
def opener (sent : Bool) : UInt8 :=
  if sent then HandshakeType.messageHash.toU8 else HandshakeType.clientHello.toU8

/-- A derivation made before, over a transcript that was given up or has grown since. -/
def Older (sent : Bool) (transcript : Bytes) (d : Derivation cs) : Prop :=
  (sent = true ∧ d.transcript.head? = some HandshakeType.clientHello.toU8) ∨
    d.transcript.head? = some (opener sent) ∧
      (d.transcript.length < transcript.length ∨
        d.transcript.length = transcript.length ∧ d.label = .serverHandshakeTraffic)

structure Sound (P : Primitives cs) (sent : Bool) (l : List (Deed cs)) (ks : KeySchedule cs) : Prop
    extends Orderly P l where
  tracks : Tracks P l ks.serverState.state
  older : ∀ d ∈ installs l, Older sent ks.serverState.transcriptHash d
  begins : ks.serverState.transcriptHash = [] ∨
    ks.serverState.transcriptHash.head? = some (opener sent)
  retried : sent = true → ks.serverState.transcriptHash ≠ []
  keyed : ks.clientState.state.trafficSecret ≠ .uninitialized → ks.serverState.transcriptHash ≠ []

/-- The same within a handshake. -/
structure Started (P : Primitives cs) (sent : Bool) (l : List (Deed cs)) (ks : KeySchedule cs) : Prop
    extends Sound P sent l ks where
  started : ks.serverState.transcriptHash ≠ []

/-- What a failure leaves: after a panic only the log. -/
def Left (P : Primitives cs) (sent : Bool) (stop : Stop) (l : List (Deed cs)) (ks : KeySchedule cs) :
    Prop :=
  Orderly P l ∧ (stop ≠ .panic → Sound P sent l ks)

variable {sent : Bool} {l : List (Deed cs)} {ks ks' : KeySchedule cs}

theorem Sound.left (h : Sound P sent l ks) (stop : Stop) : Left P sent stop l ks :=
  ⟨h.toOrderly, fun _ => h⟩

theorem Older.grow {transcript more : Bytes} {d : Derivation cs} (h : Older sent transcript d) :
    Older sent (transcript ++ more) d := by
  rcases h with h | ⟨hhead, hlen⟩
  · exact .inl h
  · refine .inr ⟨hhead, ?_⟩
    rw [List.length_append]
    rcases hlen with hlt | ⟨heq, hlabel⟩
    · exact .inl (by omega)
    · rcases Nat.eq_zero_or_pos more.length with hzero | hpos
      · exact .inr ⟨by omega, hlabel⟩
      · exact .inl (by omega)

/-- Nothing is sealed or installed for sending. -/
structure Quiet (ks ks' : KeySchedule cs) : Prop where
  server : ks'.serverState.state = ks.serverState.state
  secret : ks'.clientState.state.trafficSecret = ks.clientState.state.trafficSecret
  transcript : ks.serverState.transcriptHash <+: ks'.serverState.transcriptHash

instance : Std.Refl (@Quiet cs) := ⟨fun _ => ⟨rfl, rfl, List.prefix_refl _⟩⟩

instance : IsTrans (KeySchedule cs) Quiet :=
  ⟨fun _ _ _ h h' => ⟨h'.server.trans h.server, h'.secret.trans h.secret,
    h.transcript.trans h'.transcript⟩⟩

def DeskQuiet (d d' : Desk cs) : Prop := Quiet d.schedule d'.schedule

instance : Std.Refl (@DeskQuiet cs) := ⟨fun d => Std.Refl.refl (r := Quiet) d.schedule⟩

instance : IsTrans (Desk cs) DeskQuiet := ⟨fun d _ d' => IsTrans.trans d.schedule _ d'.schedule⟩

/-- What is added to a transcript does not change how it begins, unless it was empty. -/
theorem Sound.quiet (h : Sound P sent l ks) (hq : Quiet ks ks')
    (hbegins : ks.serverState.transcriptHash = [] → ks'.serverState.transcriptHash = [] ∨
      ks'.serverState.transcriptHash.head? = some (opener sent)) : Sound P sent l ks' := by
  obtain ⟨more, hmore⟩ := hq.transcript
  have hne : ks.serverState.transcriptHash ≠ [] → ks'.serverState.transcriptHash ≠ [] := by
    rw [← hmore]
    exact fun hne heq => hne (List.append_eq_nil_iff.mp heq).1
  refine ⟨h.toOrderly, hq.server ▸ h.tracks, fun d hd => hmore ▸ (h.older d hd).grow, ?_,
    fun hsent => hne (h.retried hsent), fun hkeyed => hne (h.keyed (hq.secret ▸ hkeyed))⟩
  rcases h.begins with hnil | hhead
  · exact hbegins hnil
  · refine .inr ?_
    rw [← hmore, List.head?_append, hhead]
    rfl

theorem Started.quiet (h : Started P sent l ks) (hq : Quiet ks ks') : Started P sent l ks' := by
  refine ⟨h.toSound.quiet hq fun hnil => absurd hnil h.started, ?_⟩
  obtain ⟨more, hmore⟩ := hq.transcript
  rw [← hmore]
  exact fun heq => h.started (List.append_eq_nil_iff.mp heq).1

/-- Not even the transcript has grown. -/
structure Idle (ks ks' : KeySchedule cs) : Prop where
  server : ks'.serverState = ks.serverState
  secret : ks'.clientState.state.trafficSecret = ks.clientState.state.trafficSecret

instance : Std.Refl (@Idle cs) := ⟨fun _ => ⟨rfl, rfl⟩⟩

instance : IsTrans (KeySchedule cs) Idle :=
  ⟨fun _ _ _ h h' => ⟨h'.server.trans h.server, h'.secret.trans h.secret⟩⟩

theorem Sound.idle (h : Sound P sent l ks) (hi : Idle ks ks') : Sound P sent l ks' :=
  h.quiet ⟨by rw [hi.server], hi.secret, by rw [hi.server]⟩ fun hnil => .inl (by rw [hi.server, hnil])

/-- The encryption a traffic state makes next. -/
def upcoming (s : KeyScheduleState cs) : Deed cs :=
  .use (s.key, KeyScheduleState.nonce s.counter s.iv)

theorem Orderly.seal {s : KeyScheduleState cs} (h : Orderly P l) (ht : Tracks P l s) :
    Orderly P (l ++ [upcoming s]) := by
  have hcarries : Carries P (Epoch.first.after l).opened (Epoch.first.after l).count
      (s.key, KeyScheduleState.nonce s.counter s.iv) := by
    refine ⟨ht.key, ?_, ?_⟩
    · rw [KeyScheduleState.nonce_eq, ht.iv, ht.counter]
    · rw [← ht.counter]
      exact s.counter.toNat_lt
  refine ⟨numbered_append.mpr ⟨h.numbered, hcarries, trivial⟩, ?_⟩
  rw [installs_append]
  simpa [installs, upcoming] using h.nodup

/-- The log is one encryption ahead of the counter. -/
structure Ahead (P : Primitives cs) (sent : Bool) (l : List (Deed cs)) (ks : KeySchedule cs) : Prop where
  orderly : Orderly P l
  counted : CanCount ks.serverState.state → Sound P sent l (bumpServer ks)

theorem Sound.seal (h : Sound P sent l ks) :
    Ahead P sent (l ++ [upcoming ks.serverState.state]) ks := by
  refine ⟨h.toOrderly.seal h.tracks, fun hcan => ⟨h.toOrderly.seal h.tracks, ⟨?_, ?_, ?_⟩, ?_,
    h.begins, h.retried, h.keyed⟩⟩
  · rw [after_append]
    exact h.tracks.key
  · rw [after_append]
    exact h.tracks.iv
  · rw [after_append]
    exact (canCount_next hcan).trans (congrArg (· + 1) h.tracks.counter)
  · intro d hd
    refine h.older d ?_
    simpa [installs, upcoming] using hd

theorem increment_triple : Triple (Ahead P sent) (.bare incrementServerCounter)
    (fun _ => Sound P sent) (Left P sent) := by
  refine .bare fun l ks h => ?_
  rw [incrementServerCounter_eq]
  split
  next hcan => exact h.counted hcan
  next => exact ⟨h.orderly, fun hne => absurd rfl hne⟩

section Notes

/-- Where deeds are noted, a computation that only asks leaves no note. -/
theorem asked_triple {ε : Type} {x : Traced Demand ε σ α} {y : EStateM ε σ α} (hx : x.erase = y)
    {pre : List (Deed cs) → σ → Prop} {post : α → List (Deed cs) → σ → Prop}
    {fail : ε → List (Deed cs) → σ → Prop} (h : Triple pre (.bare y) post fail) :
    Triple pre (Notes.deeds.asked x) post fail := by
  subst hx
  exact h

variable {pre : List (Deed cs) → σ → Prop} {fail : Stop → List (Deed cs) → σ → Prop}

theorem ask_triple {asks : List Demand} :
    Triple pre (Notes.deeds.asked (demand asks)) (fun _ => pre) fail := .bare fun _ _ h => h

/-- The AEAD is given the key and the nonce of the state, and that is what is noted. -/
theorem sealRegion_triple (s : KeyScheduleState cs) (aad region : Bytes) (plaintextLen : Nat)
    {post : List (Deed cs) → σ → Prop} (hpost : ∀ l t, pre l t → post (l ++ [upcoming s]) t)
    (hfail : ∀ stop l t, pre l t → fail stop l t) :
    Triple pre (Noted.sealRegion .deeds P s aad region plaintextLen) (fun _ => post) fail := by
  have hgiven : ∀ {β : Type} (b : β), Triple pre (.bare (fromResult (.ok b)))
      (fun b' l t => b' = b ∧ pre l t) fail := fun b => .bare fun _ _ h => ⟨rfl, h⟩
  refine (hgiven s.key).bind fun key => .of_fact fun hkey => ask_triple.bind fun _ =>
    (hgiven (KeyScheduleState.nonce s.counter s.iv)).bind fun nonce => .of_fact fun hnonce => ?_
  subst hkey hnonce
  refine Noted.inRegion_triple fun t => ?_
  have hrun : Triple (fun l b => b = .wrapWithPos region plaintextLen ∧ pre l t)
      (.bare (CryptoBuffer.encryptInPlace P s.key (KeyScheduleState.nonce s.counter s.iv) aad))
      (fun _ l _ => pre l t) fun _ l _ => fail (.err .cryptoError) l t :=
    .of_keeps (R := fun _ _ => True) (fun _ => trivial) (fun _ _ _ h _ => h.2)
      fun _ l _ _ h _ => hfail _ l t h.2
  exact Triple.bind (asked_triple rfl hrun) fun _ => .note fun l _ h => hpost l t h

end Notes

theorem sealPayload_triple (payload : Bytes) (marker : ContentType) (out : Bytes)
    (writes : List Demand) :
    Triple (Sound P sent) (Noted.sealPayload .deeds P payload marker out writes)
      (fun _ => Sound P sent) (Left P sent) := by
  refine ask_triple.bind fun _ => ask_triple.bind fun _ => .get_bind fun ks => ?_
  have hseal : ∀ aad region n, Triple (fun l t => t = ks ∧ Sound P sent l t)
      (Noted.sealRegion .deeds P ks.serverState.state aad region n) (fun _ => Ahead P sent)
      (Left P sent) := fun aad region n =>
    sealRegion_triple _ _ _ _ (fun _ _ h => h.1 ▸ h.2.seal) fun stop _ _ h => h.2.left stop
  exact (hseal _ _ _).bind fun _ => increment_triple.bind fun _ => ask_triple.bind fun _ =>
    .pure fun _ _ h => h

theorem Orderly.install (h : Orderly P l) {d : Derivation cs} (hfresh : d ∉ installs l) :
    Orderly P (l ++ [.install d]) := by
  refine ⟨numbered_append.mpr ⟨h.numbered, trivial⟩, ?_⟩
  rw [installs_append]
  exact List.nodup_append.mpr ⟨h.nodup, List.nodup_singleton d, fun x hx y hy hxy =>
    hfresh (List.mem_singleton.mp hy ▸ hxy ▸ hx)⟩

theorem Tracks.install (ikm : Bytes) (clientLabel serverLabel : Label) :
    Tracks P (l ++ [.install (.ofSchedule P ikm serverLabel ks)])
      (Rfc8446.advance P ikm clientLabel serverLabel ks).serverState.state := by
  refine ⟨?_, ?_, ?_⟩ <;> rw [after_append] <;> rfl

/-- A key is installed, and the transcript may grow at once. Application keys need that, because
handshake keys can stand over the same transcript. -/
theorem Started.install (h : Started P sent l ks) (ikm more : Bytes) (clientLabel : Label)
    {serverLabel : Label}
    (hfresh : ∀ d ∈ installs l, d.label = serverLabel →
      d.transcript ≠ ks.serverState.transcriptHash)
    (hmore : serverLabel = .serverHandshakeTraffic ∨ more ≠ []) :
    Started P sent (l ++ [.install (.ofSchedule P ikm serverLabel ks)])
      (absorb (Rfc8446.advance P ikm clientLabel serverLabel ks) more) := by
  have hbegins := h.begins.resolve_left h.started
  have hne : ks.serverState.transcriptHash ++ more ≠ [] :=
    fun heq => h.started (List.append_eq_nil_iff.mp heq).1
  refine ⟨⟨h.toOrderly.install fun hmem => hfresh _ hmem rfl rfl,
    .install ikm clientLabel serverLabel, ?_, .inr ?_,
    fun _ => hne, fun _ => hne⟩, hne⟩
  · intro d hd
    rw [installs_append] at hd
    rcases List.mem_append.mp hd with hd | hd
    · exact (h.older d hd).grow
    · cases List.mem_singleton.mp hd
      refine .inr ⟨hbegins, ?_⟩
      simp only [Derivation.ofSchedule, absorb, withTranscript, Rfc8446.advance, List.length_append]
      rcases Nat.eq_zero_or_pos more.length with hzero | hpos
      · exact .inr ⟨by omega, hmore.resolve_right (not_not.mpr (List.length_eq_zero_iff.mp hzero))⟩
      · exact .inl (by omega)
  · simp only [absorb, withTranscript, Rfc8446.advance]
    rw [List.head?_append, hbegins]
    rfl

/-- The transcript is longer than any a key was derived over, or begins differently. -/
structure Renewed (P : Primitives cs) (sent : Bool) (l : List (Deed cs)) (ks : KeySchedule cs) : Prop
    extends Started P sent l ks where
  longer : ∀ d ∈ installs l, d.transcript.head? ≠ some (opener sent) ∨
    d.transcript.length < ks.serverState.transcriptHash.length

theorem Renewed.quiet (h : Renewed P sent l ks) (hq : Quiet ks ks') : Renewed P sent l ks' :=
  ⟨h.toStarted.quiet hq, fun d hd => (h.longer d hd).imp_right
    fun hlt => lt_of_lt_of_le hlt hq.transcript.length_le⟩

theorem Renewed.fresh (h : Renewed P sent l ks) {d : Derivation cs} (hd : d ∈ installs l) :
    d.transcript ≠ ks.serverState.transcriptHash := by
  intro heq
  rcases h.longer d hd with hhead | hlt
  · exact hhead (heq ▸ h.begins.resolve_left h.started)
  · exact absurd (congrArg List.length heq) (by omega)

/-- A ClientHello renews the transcript. -/
theorem Sound.hello (h : Sound P sent l ks) {msg : Bytes}
    (hmsg : msg.head? = some HandshakeType.clientHello.toU8) : Renewed P sent l (absorb ks msg) := by
  have hne : msg ≠ [] := fun hnil => by simp [hnil] at hmsg
  have hpos : 0 < msg.length := List.length_pos_iff.mpr hne
  refine ⟨⟨h.quiet ⟨rfl, rfl, List.prefix_append _ _⟩ fun hnil => .inr ?_,
    fun heq => hne (List.append_eq_nil_iff.mp heq).2⟩, fun d hd => ?_⟩
  · have hsent : sent = false := Bool.eq_false_iff.mpr fun hsent => h.retried hsent hnil
    simp only [absorb, withTranscript, hnil, List.nil_append, hmsg, hsent]
    rfl
  · rcases h.older d hd with ⟨rfl, hhead⟩ | ⟨-, hlen⟩
    · exact .inl (by rw [hhead]; decide)
    · refine .inr ?_
      simp only [absorb, withTranscript, List.length_append]
      omega

/-- Keys of an accepted Finished have a label of their own over this transcript. -/
theorem Started.fresh (h : Started P sent l ks) {d : Derivation cs} (hd : d ∈ installs l)
    (hlabel : d.label = .serverApplicationTraffic) : d.transcript ≠ ks.serverState.transcriptHash := by
  intro heq
  have hbegins := h.begins.resolve_left h.started
  rcases h.older d hd with ⟨rfl, hhead⟩ | ⟨-, hlt | ⟨-, hhandshake⟩⟩
  · rw [heq, hbegins] at hhead
    exact absurd hhead (by decide)
  · exact absurd (congrArg List.length heq) (by omega)
  · rw [hlabel] at hhandshake
    cases hhandshake

section Flight

/-- Writing to the buffer is no concern of the schedule. -/
theorem onWriter_triple {pre : List (Deed cs) → KeySchedule cs → Prop}
    {fail : Stop → List (Deed cs) → KeySchedule cs → Prop} (x : EStateM Stop OutWriter α)
    (hfail : ∀ stop l ks, pre l ks → fail stop l ks) :
    Triple (fun l d => pre l d.schedule) (.bare (Desk.onWriter x)) (fun _ l d => pre l d.schedule)
      fun stop l d => fail stop l d.schedule := by
  have hkept : Keeps (fun d d' : Desk cs => d'.schedule = d.schedule) (Desk.onWriter x) :=
    Keeps.onPart (R := fun _ _ => True) (fun _ => trivial) fun _ _ _ => rfl
  exact .of_keeps hkept (fun l d d' h heq => heq ▸ h) fun stop l d d' h heq => heq ▸ hfail stop l _ h

theorem closeHandshakeRecord_triple (recordStart innerStart : Nat) (ciphertext : Bytes) :
    Triple (fun l d => Ahead P sent l d.schedule ∧ d.schedule.serverState.transcriptHash ≠ [])
      (.bare (closeHandshakeRecord recordStart innerStart ciphertext))
      (fun _ l d => Started P sent l d.schedule) fun stop l d => Left P sent stop l d.schedule := by
  have hcount : Triple
      (fun l d => Ahead P sent l d.schedule ∧ d.schedule.serverState.transcriptHash ≠ [])
      (.bare (Desk.onSchedule incrementServerCounter)) (fun _ l d => Started P sent l d.schedule)
      fun stop l d => Left P sent stop l d.schedule := by
    refine .bare fun l d h => .onPart ?_
    rw [incrementServerCounter_eq]
    split
    next hcan => exact ⟨h.1.counted hcan, h.2⟩
    next => exact ⟨h.1.orderly, fun hne => absurd rfl hne⟩
  have hplace : ∀ f : OutWriter → OutWriter, Triple
      (fun l d => Ahead P sent l d.schedule ∧ d.schedule.serverState.transcriptHash ≠ [])
      (.bare (Desk.onWriter (modify f)))
      (fun _ l d => Ahead P sent l d.schedule ∧ d.schedule.serverState.transcriptHash ≠ [])
      fun stop l d => Left P sent stop l d.schedule := fun f => .bare fun l d h => h
  simp only [closeHandshakeRecord, Traced.bare_bind]
  exact (hplace _).bind fun _ => hcount.bind fun _ =>
    onWriter_triple _ fun stop _ _ h => h.toSound.left stop

theorem sealHandshakeRecord_triple (recordStart innerStart : Nat) (inner : Bytes) :
    Triple (fun l d => Started P sent l d.schedule)
      (Noted.sealHandshakeRecord .deeds P recordStart innerStart inner)
      (fun _ l d => Started P sent l d.schedule) fun stop l d => Left P sent stop l d.schedule := by
  have hleft : ∀ stop l ks, Started P sent l ks → Left P sent stop l ks :=
    fun stop _ _ h => h.toSound.left stop
  have habsorb : Triple (fun l d => Started P sent l d.schedule)
      (.bare (Desk.onSchedule (KeySchedule.updateTranscript inner)))
      (fun _ l d => Started P sent l d.schedule) fun stop l d => Left P sent stop l d.schedule :=
    .bare fun l d h => h.quiet ⟨rfl, rfl, List.prefix_append _ _⟩
  have hasks : ∀ asks : Desk cs → List Demand, Triple (fun l d => Started P sent l d.schedule)
      (Notes.deeds.asked (demandAt asks)) (fun _ l d => Started P sent l d.schedule)
      fun stop l d => Left P sent stop l d.schedule := fun _ => .bare fun _ _ h => h
  refine (hasks _).bind fun _ => (onWriter_triple _ hleft).bind fun _ =>
    habsorb.bind fun _ => .get_bind fun d => ?_
  dsimp only
  split
  · exact .bare fun l d h => hleft _ l _ h.2
  · have hseal : ∀ aad region n, Triple (fun l t => t = d ∧ Started P sent l t.schedule)
        (Noted.sealRegion .deeds P d.schedule.serverState.state aad region n)
        (fun _ l d => Ahead P sent l d.schedule ∧ d.schedule.serverState.transcriptHash ≠ [])
        fun stop l d => Left P sent stop l d.schedule := fun aad region n =>
      sealRegion_triple _ _ _ _ (fun _ _ h => ⟨h.1 ▸ h.2.toSound.seal, h.2.started⟩)
        fun stop l _ h => hleft stop l _ h.2
    exact ask_triple.bind fun _ => (hseal _ _ _).bind fun ciphertext =>
      asked_triple (Noted.erase_closeHandshakeRecord _ _ _) (closeHandshakeRecord_triple _ _ _)

theorem writeEncryptedHandshakeRecord_triple (enc : Noted.TracedEncoder cs) :
    Triple (fun l d => Started P sent l d.schedule)
      (Noted.writeEncryptedHandshakeRecord .deeds P enc)
      (fun _ l d => Started P sent l d.schedule) fun stop l d => Left P sent stop l d.schedule := by
  have hleft : ∀ stop l ks, Started P sent l ks → Left P sent stop l ks :=
    fun stop _ _ h => h.toSound.left stop
  have happend : ∀ data, Triple (fun l d => Started P sent l d.schedule)
      (Notes.deeds.asked (Noted.onWriter (Checked.append data)))
      (fun _ l d => Started P sent l d.schedule) fun stop l d => Left P sent stop l d.schedule :=
    fun data => asked_triple (Noted.erase_onWriter _) (onWriter_triple _ hleft)
  refine .get_bind fun _ => ((happend _).weaken fun _ _ h => h.2).bind fun _ =>
    .get_bind fun d => ask_triple.bind fun _ => ?_
  split
  · exact .bare fun l d h => hleft _ l _ h.2
  · have hinner : ∀ r : Except Stop Bytes, Triple (fun l t => t = d ∧ Started P sent l t.schedule)
        (.bare (fromResult r)) (fun _ l d => Started P sent l d.schedule)
        fun stop l d => Left P sent stop l d.schedule := by
      refine fun r => .bare fun l t h => ?_
      cases r with
      | ok inner => exact h.2
      | error stop => exact hleft stop l _ h.2
    exact ask_triple.bind fun _ => (hinner _).bind fun inner =>
      sealHandshakeRecord_triple _ _ inner

/-- A step of the key schedule that succeeds, with the secret it installs. -/
theorem installing_triple {ikm : Bytes} {clientLabel serverLabel : Label} {x : KeySchedule.M cs Unit}
    {pre post : List (Deed cs) → KeySchedule cs → Prop}
    {fail : Stop → List (Deed cs) → KeySchedule cs → Prop}
    (hx : ∀ ks, x ks = .ok () (Rfc8446.advance P ikm clientLabel serverLabel ks))
    (hpost : ∀ l ks, pre l ks → post (l ++ [.install (.ofSchedule P ikm serverLabel ks)])
      (Rfc8446.advance P ikm clientLabel serverLabel ks)) :
    Triple pre (Noted.installing .deeds P ikm clientLabel serverLabel x) (fun _ => post) fail := by
  refine .get_bind fun ks => ask_triple.bind fun _ => ?_
  have hrun : Triple (fun l t => t = ks ∧ pre l t) (.bare (Session.orCryptoError x))
      (fun _ l t => t = Rfc8446.advance P ikm clientLabel serverLabel ks ∧ pre l ks) fail := by
    refine .bare fun l t h => ?_
    obtain ⟨rfl, h⟩ := h
    rw [Session.orCryptoError, mapError_of_ok (hx t)]
    exact ⟨rfl, h⟩
  exact hrun.bind fun _ => .note fun l t h => h.1 ▸ hpost l ks h.2

theorem installHandshakeSecret_triple (ikm : Bytes) :
    Triple (Renewed P sent) (Noted.installing .deeds P ikm .clientHandshakeTraffic
      .serverHandshakeTraffic (KeySchedule.initializeHandshakeSecret P ikm))
      (fun _ => Started P sent) (Left P sent) := by
  refine installing_triple (KeySchedule.initializeHandshakeSecret_eq P ikm) fun l ks h => ?_
  have hstarted := h.toStarted.install ikm [] .clientHandshakeTraffic
    (fun d hd _ => h.fresh hd) (.inl rfl)
  rwa [absorb, List.append_nil] at hstarted

theorem installHandshakeKeys_triple (config : TlsServerConfig) (mode : KexMode) :
    Triple (Renewed P sent) (Noted.installHandshakeKeys .deeds P X config mode)
      (fun _ => Started P sent) (Left P sent) := by
  have hrefused : ∀ stop, Triple (Renewed P sent) (.bare (throw stop : KeySchedule.M cs Unit))
      (fun _ => Started P sent) (Left P sent) := fun stop => .bare fun l ks h => h.toSound.left stop
  cases mode with
  | pskKe => exact installHandshakeSecret_triple _
  | pskDheKe clientPub =>
      simp only [Noted.installHandshakeKeys]
      split
      · exact hrefused _
      · split
        · refine ask_triple.bind fun _ => ?_
          split
          · exact hrefused _
          · exact installHandshakeSecret_triple _
        · exact hrefused _

theorem writeServerHelloRecord_quiet (config : TlsServerConfig) (sessionId : Bytes) (idx : Nat)
    (mode : KexMode) : Keeps (@DeskQuiet cs) (writeServerHelloRecord config sessionId idx mode) :=
  .bind (Keeps.onPart (R := fun _ _ => True) (fun _ => trivial) fun d _ _ =>
    Std.Refl.refl (r := Quiet) d.schedule) fun _ => .bind .get fun _ =>
      Keeps.onPart (R := Quiet) (.modify fun _ => ⟨rfl, rfl, List.prefix_append _ _⟩) fun _ _ h => h

theorem writeFlight_triple (config : TlsServerConfig) (offer : Offer) (mode : KexMode) :
    Triple (fun l d => Renewed P sent l d.schedule) (Noted.writeFlight .deeds P X config offer mode)
      (fun _ l d => Started P sent l d.schedule) fun stop l d => Left P sent stop l d.schedule := by
  have hhello : Triple (fun l d => Renewed P sent l d.schedule)
      (.bare (writeServerHelloRecord config offer.hello.legacySessionId offer.selectedIdx mode))
      (fun _ l d => Renewed P sent l d.schedule) fun stop l d => Left P sent stop l d.schedule :=
    .of_keeps (writeServerHelloRecord_quiet _ _ _ _) (fun l d d' h hq => h.quiet hq)
      fun stop l d d' h hq => (h.quiet hq).toSound.left stop
  have hinstall : Triple (fun l d => Renewed P sent l d.schedule)
      (Noted.onSchedule (Noted.installHandshakeKeys .deeds P X config mode))
      (fun _ l d => Started P sent l d.schedule) fun stop l d => Left P sent stop l d.schedule :=
    .onPart fun d => (installHandshakeKeys_triple config mode).weaken fun l ks h => h.1 ▸ h.2
  exact (asked_triple (Noted.erase_writeServerHelloRecord _ _ _ _) hhello).bind fun _ =>
    hinstall.bind fun _ =>
    (writeEncryptedHandshakeRecord_triple _).bind fun _ => writeEncryptedHandshakeRecord_triple _

end Flight

def SoundAt (P : Primitives cs) (l : List (Deed cs)) (s : Session cs) : Prop :=
  Sound P s.hrrState.sent l s.schedule

def LeftAt (P : Primitives cs) (stop : Stop) (l : List (Deed cs)) (s : Session cs) : Prop :=
  Left P s.hrrState.sent stop l s.schedule

theorem onSession_triple {x : Noted.ScheduleM cs (Deed cs) α}
    (h : ∀ sent, Triple (Sound P sent) x (fun _ => Sound P sent) (Left P sent)) :
    Triple (SoundAt P) (Noted.onSession x) (fun _ => SoundAt P) (LeftAt P) :=
  .onPart fun s => (h s.hrrState.sent).weaken fun _ _ h => h.1 ▸ h.2

theorem throw_triple (stop : Stop) :
    Triple (SoundAt P) (.bare (throw stop : Session.M cs α)) (fun _ => SoundAt P) (LeftAt P) :=
  .bare fun _ _ h => h.left stop

theorem encryptAppData_triple (plaintext out : Bytes) :
    Triple (SoundAt P) (Noted.encryptAppData .deeds P plaintext out) (fun _ => SoundAt P)
      (LeftAt P) := by
  refine ask_triple.bind fun _ => ?_
  dsimp only
  split
  · exact throw_triple _
  split
  · exact throw_triple _
  · exact onSession_triple fun _ => sealPayload_triple _ _ _ _

theorem encryptAlert_triple (level : AlertLevel) (description : AlertDescription) (out : Bytes) :
    Triple (SoundAt P) (Noted.encryptAlert .deeds P level description out) (fun _ => SoundAt P)
      (LeftAt P) := by
  refine ask_triple.bind fun _ => ?_
  split
  · exact throw_triple _
  · exact onSession_triple fun _ => sealPayload_triple _ _ _ _

/-- Opening a record moves the counter for receiving. -/
theorem openRecord_idle (record buffer : Bytes) : Keeps Idle (Session.openRecord P record buffer) := by
  have hcount : Keeps Idle (incrementClientCounter : KeySchedule.M cs Unit) := by
    intro ks
    rw [incrementClientCounter_eq]
    split
    · exact ⟨rfl, rfl⟩
    · exact ⟨rfl, rfl⟩
  refine .bind .get fun ks => .bind (.fromResult _) fun key => .bind (.fromResult _) fun nonce => ?_
  split
  · exact .throw _
  · exact .bind hcount fun _ => .pure _

theorem openRecord_triple (record buffer : Bytes) :
    Triple (Sound P sent) (.bare (Session.openRecord P record buffer)) (fun _ => Sound P sent)
      (Left P sent) :=
  .of_keeps (openRecord_idle record buffer) (fun _ _ _ h hi => h.idle hi)
    fun stop _ _ _ h hi => (h.idle hi).left stop

theorem fromResult_triple (r : Except Stop α) :
    Triple (Sound P sent) (.bare (fromResult r)) (fun a l ks => r = .ok a ∧ Sound P sent l ks)
      (Left P sent) := by
  refine .bare fun l ks h => ?_
  cases r with
  | ok a => exact ⟨rfl, h⟩
  | error stop => exact h.left stop

theorem installMaster_triple :
    Triple (Started P sent) (Noted.installing .deeds P (KeySchedule.zero cs) .clientApplicationTraffic
        .serverApplicationTraffic (KeySchedule.initializeMasterSecret P))
      (fun _ l ks => ∀ more, more ≠ [] → Started P sent l (absorb ks more)) (Left P sent) :=
  installing_triple (KeySchedule.initializeMasterSecret_eq P) fun _ _ h more hmore =>
    h.install _ more _ (fun _ hd => h.fresh hd) (.inr hmore)

theorem Sound.verified (h : Sound P sent l ks) {verify hash : GenericArray cs.hashLen} {b : Bool}
    (hverified : ks.verifyClientFinished P ⟨verify, some hash⟩ = .ok b) : Started P sent l ks := by
  obtain ⟨prk, hprk, -⟩ := KeySchedule.verifyFinished_eq_ok.mp hverified
  exact ⟨h, h.keyed (by rw [hprk]; nofun)⟩

theorem processClientFinishedIn_triple (record : Bytes) :
    Triple (Sound P sent) (Noted.processClientFinishedIn .deeds P record) (fun _ => Sound P sent)
      (Left P sent) := by
  refine ask_triple.bind fun _ => (fromResult_triple _).bind fun bodyLen =>
    .get_bind fun before => ?_
  split
  · exact .bare fun l ks h => h.2.2.left _
  have hopen := @openRecord_triple cs P sent record (record.drop RECORD_HEADER_LEN)
  refine (asked_triple (Noted.erase_openRecord P record bodyLen 256)
    (hopen.weaken fun l ks h => h.2.2)).bind fun plaintext => ask_triple.bind fun _ =>
    (fromResult_triple _).bind fun payload => .get_bind fun ks => ask_triple.bind fun _ => ?_
  obtain ⟨inner, verify⟩ := payload
  have hverify : Triple (fun l t => t = ks ∧
        (Session.finishedPayload cs plaintext).mapError Stop.err = .ok (inner, verify) ∧ Sound P sent l t)
      (.bare (fromResult ((ks.verifyClientFinished P
        ⟨verify, some (P.hash before.serverState.transcriptHash)⟩).mapError fun _ => .err .cryptoError)))
      (fun _ l t => inner ≠ [] ∧ Started P sent l t) (Left P sent) := by
    refine .bare fun l t h => ?_
    obtain ⟨rfl, hpayload, h⟩ := h
    obtain ⟨-, hmessage⟩ := Session.finishedPayload_eq_ok.mp (mapError_eq_ok_iff.mp hpayload)
    cases hverified : t.verifyClientFinished P
        ⟨verify, some (P.hash before.serverState.transcriptHash)⟩ with
    | error e => exact h.left _
    | ok b => exact ⟨hmessage ▸ nofun, h.verified hverified⟩
  refine hverify.bind fun ok => ?_
  split
  · exact .of_fact fun hinner => installMaster_triple.bind fun _ =>
      .bare fun l t h => (h inner hinner).toSound
  · exact .bare fun l t h => h.2.toSound.left _

theorem writing_sound {x : Noted.DeskM cs (Deed cs) Unit} (out : Bytes) (h : ∀ sent, Triple
      (fun l d => Renewed P sent l d.schedule) x (fun _ l d => Started P sent l d.schedule)
      fun stop l d => Left P sent stop l d.schedule) :
    Triple (fun l s => Renewed P s.hrrState.sent l s.schedule) (Noted.writing .deeds out x)
      (fun _ => SoundAt P) (LeftAt P) := by
  refine Noted.writing_triple .deeds fun s => ((h s.hrrState.sent).mono ?_ ?_ fun _ _ _ h => h)
  · rintro l d ⟨rfl, hl⟩
    exact hl
  · intro _ l d hd
    rw [show l ++ Notes.deeds.asks _ = l from List.append_nil l]
    exact hd.toSound

theorem firstFlight_triple {msg : Bytes} (hmsg : msg.head? = some HandshakeType.clientHello.toU8)
    (config : TlsServerConfig) (offer : Offer) (mode : KexMode) (out : Bytes) :
    Triple (SoundAt P) (Noted.firstFlight .deeds P X msg config offer mode out) (fun _ => SoundAt P)
      (LeftAt P) := by
  have habsorb : Triple (SoundAt P) (.bare (Session.onSchedule (KeySchedule.updateTranscript msg)))
      (fun _ l s => Renewed P s.hrrState.sent l s.schedule) (LeftAt P) :=
    .bare fun l s h => Sound.hello h hmsg
  exact habsorb.bind fun _ => (writing_sound out fun sent => writeFlight_triple config offer mode).bind
    fun _ => .pure fun _ _ h => h

/-- The transcript starts anew, with a byte that begins no transcript a key was derived over. -/
theorem Sound.restart (h : Sound P false l ks) (ch1 rest : Bytes) :
    Sound P true l (withTranscript ks (messageHash P ch1 ++ rest)) := by
  refine ⟨h.toOrderly, h.tracks, fun d hd => .inl ⟨rfl, ?_⟩, .inr rfl, nofun, nofun⟩
  rcases h.older d hd with ⟨hsent, -⟩ | ⟨hhead, -⟩
  · cases hsent
  · exact hhead

theorem writeHelloRetryRequestRecord_ends (sessionId ch1 : Bytes) (group : NamedGroup) (d : Desk cs) :
    Ends (writeHelloRetryRequestRecord P sessionId group ch1 d)
      (fun _ d' => ∃ rest, d'.schedule = withTranscript d.schedule (messageHash P ch1 ++ rest))
      fun _ d' => d'.schedule = d.schedule := by
  have hemit : Keeps (fun d d' : Desk cs => d'.schedule = d.schedule)
      (Desk.onWriter (emitHelloRetryRequest sessionId group)) :=
    Keeps.onPart (R := fun _ _ => True) (fun _ => trivial) fun _ _ _ => rfl
  refine Ends.bind ((Ends.of_keeps hemit d).mono (fun n d₁ h => ?_) fun _ _ h => h)
  rw [← h]
  exact ⟨_, rfl⟩

theorem retry_triple (msg : Bytes) (offer : Offer) (group : NamedGroup) (out : Bytes) :
    Triple (fun l s => s.hrrState.sent = false ∧ SoundAt P l s)
      (.bare (Session.retry P msg offer group out)) (fun _ => SoundAt P) (LeftAt P) := by
  have hwrite : Triple (fun l s => s.hrrState.sent = false ∧ SoundAt P l s)
      (.bare (Session.writing out
        (writeHelloRetryRequestRecord P offer.hello.legacySessionId group msg)))
      (fun _ l s => Sound P true l s.schedule) (LeftAt P) := by
    refine .bare fun l s h => ?_
    have hsound : Sound P false l s.schedule := h.1 ▸ h.2
    have hends := writeHelloRetryRequestRecord_ends (P := P) offer.hello.legacySessionId msg group
      ⟨s.schedule, .new out⟩
    simp only [Session.writing]
    cases hrun : writeHelloRetryRequestRecord P offer.hello.legacySessionId group msg
        ⟨s.schedule, .new out⟩ with
    | ok u d =>
        obtain ⟨rest, hd⟩ := hends.ok hrun
        exact (congrArg (Sound P true l) hd).mpr (hsound.restart msg rest)
    | error stop d =>
        have hd : d.schedule = s.schedule := hends.error hrun
        exact (congrArg (Left P s.hrrState.sent stop l) hd).mpr (Sound.left h.2 stop)
  have hsnapshot : Triple (fun l s => Sound P true l s.schedule)
      (.bare (Session.snapshotCh1 offer.hello)) (fun _ => SoundAt P) (LeftAt P) := by
    simp only [Session.snapshotCh1, Traced.bare_bind]
    refine .get_bind fun s => ?_
    split
    · exact .bare fun l t h => h.1 ▸ h.2
    · exact .bare fun l t h => ⟨h.2.toOrderly, fun hne => absurd rfl hne⟩
  simp only [Session.retry, Traced.bare_bind]
  exact hwrite.bind fun bytes => hsnapshot.bind fun _ => .bare fun _ _ h => h

theorem checkBinder_triple (msg : Bytes) (offer : Offer) {pre : List (Deed cs) → Session cs → Prop}
    (hpre : ∀ l s, pre l s → SoundAt P l s) :
    Triple pre (.bare (Session.checkBinder P msg offer)) (fun _ => pre) (LeftAt P) :=
  .of_keeps (Session.checkBinder_keeps offer) (fun _ _ _ h heq => heq ▸ h)
    fun stop l s _ h heq => heq ▸ Sound.left (hpre l s h) stop

theorem prepared_idle (config : TlsServerConfig) (s : Session cs) :
    Idle s.schedule (Session.prepared P config s).schedule := by
  rw [Session.prepared]
  split
  · exact ⟨rfl, rfl⟩
  · exact ⟨rfl, rfl⟩

theorem processClientHello_triple (msg : Bytes) (config : TlsServerConfig) (out : Bytes) :
    Triple (SoundAt P) (Noted.processClientHello .deeds P X msg config out) (fun _ => SoundAt P)
      (LeftAt P) := by
  have hexamine : Triple (SoundAt P) (Notes.deeds.asked (Noted.examine msg config))
      (fun offer l t => examine msg config t.hrrState = .ok offer ∧ SoundAt P l t) (LeftAt P) := by
    refine .bare fun l t h => ?_
    change Ends (fromResult (examine msg config t.hrrState) t) _ _
    cases hrun : examine msg config t.hrrState with
    | ok offer => exact ⟨hrun, h⟩
    | error stop => exact Sound.left h stop
  refine hexamine.bind fun offer => ?_
  have hprepare : Triple (fun l t => examine msg config t.hrrState = .ok offer ∧ SoundAt P l t)
      (.bare (Session.prepareBinderKey P config))
      (fun _ l t => examine msg config t.hrrState = .ok offer ∧ SoundAt P l t) (LeftAt P) := by
    refine .bare fun l t h => ?_
    rw [Session.prepareBinderKey_eq]
    refine ⟨by rw [Session.prepared_hrrState]; exact h.1, ?_⟩
    rw [SoundAt, Session.prepared_hrrState]
    exact h.2.idle (prepared_idle config t)
  have hbinder : Triple (fun l t => examine msg config t.hrrState = .ok offer ∧ SoundAt P l t)
      (Notes.deeds.asked (Noted.checkBinder P msg offer))
      (fun _ l t => examine msg config t.hrrState = .ok offer ∧ SoundAt P l t) (LeftAt P) :=
    asked_triple rfl (checkBinder_triple msg offer fun l t h => h.2)
  refine (asked_triple (Noted.erase_prepareBinderKey P config) hprepare).bind fun _ =>
    hbinder.bind fun _ => ?_
  unfold Noted.answer
  split
  next group hdecision =>
    refine (asked_triple (Noted.erase_retry P msg offer group out)
      (retry_triple msg offer group out)).weaken fun l t h => ⟨?_, h.2⟩
    have hkex := (examine_eq_ok.mp h.1).2.2.2.2.1
    rw [hdecision] at hkex
    exact (decideKex_retry hkex).1
  next mode hdecision =>
    intro l t h
    have hmsg := parseClientHello_head (examine_eq_ok.mp h.1).1
    exact firstFlight_triple hmsg config offer mode out l t h.2

/-- A panic ends a run: the session is not called again. -/
def Answer.panicked : Answer → Bool
  | handshake r => r = .error .panic
  | finished r => r = .error .panic
  | bytes r => r = .error .panic
  | dataOrAlert r => r = .error .panic

/-- All encryptions and installed keys of a history, oldest first. -/
def deeds (P : Primitives cs) (X : X25519) : List (Event (Session cs) Call Answer) → List (Deed cs) :=
  inOrder fun e => (Noted.step .deeds P X e.pre e.call).2

theorem Session.new_sound : SoundAt P [] (Session.new : Session cs) where
  numbered := trivial
  nodup := List.nodup_nil
  tracks := ⟨rfl, rfl, rfl⟩
  older := nofun
  begins := .inl rfl
  retried := nofun
  keyed := fun h => absurd rfl h

section Runs

variable {s : Session cs}

/-- What a call leaves in order: the log in any case, the session unless it panicked. -/
def CallSound (P : Primitives cs) (l : List (Deed cs)) (panicked : Prop) (s : Session cs) : Prop :=
  Orderly P l ∧ (¬panicked → SoundAt P l s)

theorem call_sound {x : Noted.SessionM cs (Deed cs) α} {y : Session.M cs α}
    (hx : Triple (SoundAt P) x (fun _ => SoundAt P) (LeftAt P)) (hy : x.erase = y)
    (hs : SoundAt P l s) :
    CallSound P (l ++ (x s).2) (outcome (y s) = .error .panic) (after (y s)) := by
  have hends := hx l s hs
  have hrun : (x s).1 = y s := congrFun hy s
  rw [hrun] at hends
  cases hy : y s with
  | ok a t =>
      have ht : SoundAt P (l ++ (x s).2) t := hends.ok hy
      exact ⟨Sound.toOrderly ht, fun _ => ht⟩
  | error stop t =>
      have ht : LeftAt P stop (l ++ (x s).2) t := hends.error hy
      exact ⟨ht.1, fun hpanic => ht.2 fun heq => hpanic (congrArg Except.error heq)⟩

/-- Neither the schedule for sending nor the record of the retry is touched. -/
def AtRest (s s' : Session cs) : Prop := s'.hrrState = s.hrrState ∧ Idle s.schedule s'.schedule

instance : Std.Refl (@AtRest cs) := ⟨fun s => ⟨rfl, Std.Refl.refl (r := Idle) s.schedule⟩⟩

instance : IsTrans (Session cs) AtRest :=
  ⟨fun _ _ _ h h' => ⟨h'.1.trans h.1, IsTrans.trans _ _ _ h.2 h'.2⟩⟩

theorem openPayload_atRest (record buffer : Bytes) :
    Keeps AtRest (Session.onSchedule (Session.openPayload P record buffer)) := by
  have hidle : Keeps Idle (Session.openPayload P record buffer) := by
    refine .bind (.fromResult _) fun bodyLen => ?_
    split
    · exact .throw _
    · exact .bind (openRecord_idle _ _) fun _ => .fromResult _
  exact Keeps.onPart (R := Idle) hidle fun _ _ h => ⟨rfl, h⟩

/-- The decrypt operations neither seal nor install. -/
theorem decrypting_triple {y : Session.M cs α} (hy : Keeps AtRest y) :
    Triple (SoundAt P) (.bare y) (fun _ => SoundAt P) (LeftAt P) := by
  have hsound : ∀ l s t, SoundAt P l s → AtRest s t → SoundAt P l t := by
    intro l s t hs hrest
    rw [SoundAt, hrest.1]
    exact hs.idle hrest.2
  exact .of_keeps hy hsound fun stop l s t hs hrest => (hsound l s t hs hrest).left stop

theorem CallSound.congr {p q : Prop} (h : CallSound P l p s) (hq : q ↔ p) : CallSound P l q s :=
  ⟨h.1, fun hn => h.2 fun hp => hn (hq.mpr hp)⟩

theorem step_sound (hs : SoundAt P l s) (c : Call) :
    CallSound P (l ++ (Noted.step .deeds P X s c).2) ((Session.step P X s c).1.panicked = true)
      (Session.step P X s c).2 := by
  cases c with
  | processClientHello msg config out =>
      exact (call_sound (processClientHello_triple msg config out)
        (Noted.erase_processClientHello .deeds P X msg config out) hs).congr decide_eq_true_iff
  | processClientFinished record =>
      exact (call_sound (onSession_triple fun _ => processClientFinishedIn_triple record)
        (Noted.erase_processClientFinished .deeds P record) hs).congr decide_eq_true_iff
  | encryptAppData plaintext out =>
      exact (call_sound (encryptAppData_triple plaintext out)
        (Noted.erase_encryptAppData .deeds P plaintext out) hs).congr decide_eq_true_iff
  | encryptAlert level description out =>
      exact (call_sound (encryptAlert_triple level description out)
        (Noted.erase_encryptAlert .deeds P level description out) hs).congr decide_eq_true_iff
  | decryptAppData record buffer =>
      have hrest : Keeps AtRest (Session.decryptAppData P record buffer) := by
        refine .bind (openPayload_atRest record buffer) fun payload => ?_
        obtain ⟨contentType, payload⟩ := payload
        dsimp only
        split
        · exact .throw _
        · exact .pure _
      have herase := Noted.erase_decryptAppData P record buffer
      exact (call_sound (asked_triple herase (decrypting_triple hrest)) herase hs).congr
        decide_eq_true_iff
  | decryptAppDataOrAlert record buffer =>
      have hrest : Keeps AtRest (Session.decryptAppDataOrAlert P record buffer) :=
        .bind (openPayload_atRest record buffer) fun _ => .fromResult _
      have herase := Noted.erase_decryptAppDataOrAlert P record buffer
      exact (call_sound (asked_triple herase (decrypting_triple hrest)) herase hs).congr
        decide_eq_true_iff

/-- Along a run that has not panicked before its last call. -/
theorem run_sound {h : List (Event (Session cs) Call Answer)}
    (hr : Reaches (Session.step P X) .new h s) (hgoing : ∀ e ∈ h.tail, e.out.panicked = false) :
    CallSound P (deeds P X h) (∃ e ∈ h, e.out.panicked = true) s := by
  induction hr with
  | nil => exact ⟨Sound.toOrderly Session.new_sound, fun _ => Session.new_sound⟩
  | @call h s c hr ih =>
      have hquiet : ¬∃ e ∈ h, e.out.panicked = true := by
        rintro ⟨e, he, hp⟩
        rw [hgoing e he] at hp
        cases hp
      have hs := (ih fun e he => hgoing e (List.mem_of_mem_tail he)).2 hquiet
      rw [deeds, inOrder_cons]
      refine (step_sound hs c).congr ⟨?_, fun hp => ⟨_, List.mem_cons_self, hp⟩⟩
      rintro ⟨e, he, hp⟩
      rcases List.mem_cons.mp he with rfl | he
      · exact hp
      · exact absurd ⟨e, he, hp⟩ hquiet

theorem carries_unique {i j : Option (Derivation cs)} {m n : Nat} {u : Encryption cs}
    (hkey : sendKey P i = sendKey P j → i = j) (hi : Carries P i m u) (hj : Carries P j n u) :
    i = j ∧ m = n := by
  cases hkey (hi.key.symm.trans hj.key)
  have hnonce : ∀ {n}, Carries P i n u → u.2 = KeyScheduleState.nonce (.ofNat n) (sendIv P i) :=
    fun {n} h => Subtype.ext (by
      rw [KeyScheduleState.nonce_eq, h.nonce, UInt64.toNat_ofNat_of_lt' h.bound])
  have hcount := congrArg UInt64.toNat
    (KeyScheduleState.nonce_injective ((hnonce hi).symm.trans (hnonce hj)))
  rw [UInt64.toNat_ofNat_of_lt' hi.bound, UInt64.toNat_ofNat_of_lt' hj.bound] at hcount
  exact ⟨rfl, hcount⟩

/-- Over a whole session no key meets a nonce twice: the encryptions of an epoch carry its key and
the numbers from 0 on, and the counter stands at the number of the next one. -/
theorem server_nonces_unique {h : List (Event (Session cs) Call Answer)}
    (hr : Reaches (Session.step P X) .new h s) (hgoing : ∀ e ∈ h.tail, e.out.panicked = false)
    (hdistinct : ∀ d ∈ installs (deeds P X h), ∀ d' ∈ installs (deeds P X h),
      d.key P = d'.key P → d = d')
    (hdefault : ∀ d ∈ installs (deeds P X h), d.key P ≠ .zeros _) :
    (uses (deeds P X h)).Nodup ∧ Numbered (Carries P) .first (deeds P X h) ∧
      ((∀ e ∈ h, e.out.panicked = false) →
        Tracks P (deeds P X h) s.schedule.serverState.state) := by
  obtain ⟨horderly, hsound⟩ := run_sound hr hgoing
  refine ⟨horderly.numbered.nodup_uses ?_ ?_, horderly.numbered, fun hcalm => (hsound ?_).tracks⟩
  · refine List.nodup_cons.mpr ⟨?_, horderly.nodup.map (Option.some_injective _)⟩
    rw [List.mem_map]
    rintro ⟨d, -, hd⟩
    cases hd
  · intro i hi j hj m n u
    refine carries_unique fun hkey => ?_
    rcases List.mem_cons.mp hi with rfl | hi <;> rcases List.mem_cons.mp hj with rfl | hj
    · rfl
    · obtain ⟨d, hd, rfl⟩ := List.mem_map.mp hj
      exact absurd hkey.symm (hdefault d hd)
    · obtain ⟨d, hd, rfl⟩ := List.mem_map.mp hi
      exact absurd hkey (hdefault d hd)
    · obtain ⟨d, hd, rfl⟩ := List.mem_map.mp hi
      obtain ⟨d', hd', rfl⟩ := List.mem_map.mp hj
      exact congrArg some (hdistinct d hd d' hd' hkey)
  · rintro ⟨e, he, hp⟩
    rw [hcalm e he] at hp
    cases hp

end Runs

namespace Peer

/-- A session that has answered `direct` once it had sent something before any key. -/
def early : List Call := [.encryptAppData [1] room, .processClientHello direct config room]

def earlyRun : List (Event (Session .aes128GcmSha256) Call Answer) × Session .aes128GcmSha256 :=
  runAll (Session.step suite additive) ([], .new) early

/-- The rest of the handshake, two records of data and an alert. -/
def talk : List Call :=
  early ++ [.processClientFinished (finishing earlyRun.2.schedule), .encryptAppData [2] room,
    .encryptAppData [3] [], .encryptAppData [3] room, .encryptAlert .warning .closeNotify room]

def talkRun : List (Event (Session .aes128GcmSha256) Call Answer) × Session .aes128GcmSha256 :=
  runAll (Session.step suite additive) ([], .new) talk

theorem talkRun_keys : (.zeros _ :: (installs (deeds suite additive talkRun.1)).map (·.key suite)).Nodup ∧
    (uses (deeds suite additive talkRun.1)).length = 6 ∧
    ∀ e ∈ talkRun.1, e.out.panicked = false := by
  decide +kernel

end Peer

open Peer in
theorem talk_nonces_unique : (uses (deeds suite additive talkRun.1)).length = 6 ∧
    (uses (deeds suite additive talkRun.1)).Nodup := by
  obtain ⟨hkeys, hlen, hcalm⟩ := talkRun_keys
  obtain ⟨hzero, hnodup⟩ := List.nodup_cons.mp hkeys
  have hr : Reaches (Session.step suite additive) .new talkRun.1 talkRun.2 :=
    runAll_reaches .nil talk
  exact ⟨hlen, (server_nonces_unique hr (fun e he => hcalm e (List.mem_of_mem_tail he))
    (fun d hd d' hd' => List.inj_on_of_nodup_map hnodup hd hd')
    fun d hd heq => hzero (heq ▸ List.mem_map_of_mem hd)).1⟩

end GatoPskTls.Server
