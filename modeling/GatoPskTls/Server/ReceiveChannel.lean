import GatoPskTls.Aead
import GatoPskTls.SealedLog
import GatoPskTls.Server.Calls
import GatoPskTls.Server.Agreement

/-!
# Server: what arrives of what the client sent

A session that has completed its handshake, against a network that delivers anything. When none
of the records it delivers opens that the client has not sealed, the values the session hands out
are the client's messages from the first on, and nothing the network does costs one of them.
-/
namespace GatoPskTls.Server

open GatoPskTls Stateful History BigEndian

variable {cs : TlsCipherSuite}

namespace AppDataOrAlert

def contentType : AppDataOrAlert → ContentType
  | appData _ => .applicationData
  | alert _ _ => .alert

def payload : AppDataOrAlert → Bytes
  | appData bytes => bytes
  | alert level description => [level.toU8, description.toU8]

end AppDataOrAlert

/-- A message and the number of zeros it is padded with. -/
structure Outgoing where
  message : AppDataOrAlert
  padding : Nat
  deriving DecidableEq, Repr

namespace Outgoing

def plaintext (o : Outgoing) : Bytes :=
  o.message.payload ++ [o.message.contentType.toU8] ++ List.replicate o.padding 0

/-- The header of the record, which is its associated data. -/
def header (cs : TlsCipherSuite) (o : Outgoing) : Bytes :=
  protectedHeader (o.plaintext.length + cs.tagSize)

/-- The ciphertext under the counter `i`. -/
def sealedAt (P : Primitives cs) (s : KeyScheduleState cs) (i : Nat) (o : Outgoing) : Option Bytes :=
  P.aeadSeal s.key (KeyScheduleState.nonce (.ofNat i) s.iv) (o.header cs) o.plaintext

end Outgoing

/-- Under the key of `s` the client has sealed these messages, with the counters from 0 on. The
AEAD opens their ciphertexts, and nothing else of what it is asked to open. -/
structure IdealAead (P : Primitives cs) (s : KeyScheduleState cs) (sent : List Outgoing)
    (asked : List (SealedEntry cs)) : Prop where
  opens : ∀ {i o ciphertext}, sent[i]? = some o → o.sealedAt P s i = some ciphertext →
    P.aeadOpen s.key (KeyScheduleState.nonce (.ofNat i) s.iv) (o.header cs) ciphertext =
      some o.plaintext
  authentic : ∀ e ∈ asked, (P.aeadOpen s.key e.nonce e.aad e.ciphertext).isSome →
    ∃ i o, sent[i]? = some o ∧ e.nonce = KeyScheduleState.nonce (.ofNat i) s.iv ∧
      e.aad = o.header cs ∧ o.sealedAt P s i = some e.ciphertext
  counts : sent.length < 2 ^ 64

/-- The calls of a connection: the server sends, and takes what arrives. -/
def Transfers : Call → Prop
  | .encryptAppData _ _ => True
  | .encryptAlert _ _ _ => True
  | .decryptAppDataOrAlert _ _ => True
  | _ => False

instance : DecidablePred Transfers := fun c => by
  cases c <;> unfold Transfers <;> infer_instance

/-- The value a call has handed out. -/
def handedOut (e : Event (Session cs) Call Answer) : Option AppDataOrAlert :=
  match e.out with
  | .dataOrAlert (.ok value) => some value
  | _ => none

/-- The values handed out, the first first. -/
def received (h : List (Event (Session cs) Call Answer)) : List AppDataOrAlert :=
  inOrder (fun e => (handedOut e).toList) h

/-- What a call has the AEAD open. -/
def askedBy (e : Event (Session cs) Call Answer) : List (SealedEntry cs) :=
  let s := e.pre.schedule.clientState.state
  match e.call with
  | .decryptAppDataOrAlert record _ => [.ofRecord (KeyScheduleState.nonce s.counter s.iv) record]
  | _ => []

/-- All that the AEAD is asked to open in a history. -/
def asked (h : List (Event (Session cs) Call Answer)) : List (SealedEntry cs) := inOrder askedBy h

namespace Session

variable {P : Primitives cs} {X : X25519} {s s' : Session cs} {record buffer : Bytes}

/-- A plaintext as the client means it. -/
def decode (plaintext : Bytes) : Except TlsError AppDataOrAlert := do
  let (contentType, payload) ← stripPadding plaintext
  interpretPayload contentType payload

theorem decryptAppDataOrAlert_of_error {stop : Stop}
    (h : openPayload P record buffer s.schedule = .error stop s.schedule) :
    decryptAppDataOrAlert P record buffer s = .error stop s :=
  bind_of_error (onPart_of_error h)

/-- A record the AEAD does not open leaves the session as it was. -/
theorem decryptAppDataOrAlert_of_closed
    (h : openedWith P s.schedule.clientState.state record = none) :
    ∃ e, decryptAppDataOrAlert P record buffer s = .error (.err e) s := by
  have hopen := @openPayload_eq cs P s.schedule record buffer
  rw [h] at hopen
  cases hframing : checkFraming record with
  | error e => exact ⟨e, decryptAppDataOrAlert_of_error (by rw [hopen, hframing])⟩
  | ok bodyLen =>
      simp only [hframing] at hopen
      split at hopen
      · exact ⟨_, decryptAppDataOrAlert_of_error hopen⟩
      · exact ⟨_, decryptAppDataOrAlert_of_error hopen⟩

theorem decryptAppDataOrAlert_of_taken {plaintext : Bytes} {bodyLen : Nat}
    (hframing : checkFraming record = .ok bodyLen) (hroom : bodyLen ≤ buffer.length)
    (hopened : openedWith P s.schedule.clientState.state record = some plaintext)
    (hc : CanCount s.schedule.clientState.state) :
    decryptAppDataOrAlert P record buffer s =
      fromResult ((decode plaintext).mapError .err) { s with schedule := bumpClient s.schedule } := by
  have hopen := @openPayload_eq cs P s.schedule record buffer
  simp only [hframing, hopened, if_neg (Nat.not_lt.mpr hroom), if_pos hc] at hopen
  rw [decode]
  cases hstrip : stripPadding plaintext with
  | error e =>
      rw [hstrip] at hopen
      exact bind_of_error (onPart_of_error hopen)
  | ok stripped =>
      rw [hstrip] at hopen
      exact bind_of_ok (onPart_of_ok hopen)

/-- A record the AEAD opens is either left alone or taken. -/
theorem decryptAppDataOrAlert_of_opened {plaintext : Bytes}
    (hopened : openedWith P s.schedule.clientState.state record = some plaintext) :
    (∃ stop, decryptAppDataOrAlert P record buffer s = .error stop s) ∨
      CanCount s.schedule.clientState.state ∧ decryptAppDataOrAlert P record buffer s =
        fromResult ((decode plaintext).mapError .err) { s with schedule := bumpClient s.schedule } := by
  have hopen := @openPayload_eq cs P s.schedule record buffer
  rw [hopened] at hopen
  cases hframing : checkFraming record with
  | error e => exact .inl ⟨_, decryptAppDataOrAlert_of_error (by rw [hopen, hframing])⟩
  | ok bodyLen =>
      simp only [hframing] at hopen
      by_cases hroom : buffer.length < bodyLen
      · rw [if_pos hroom] at hopen
        exact .inl ⟨_, decryptAppDataOrAlert_of_error hopen⟩
      rw [if_neg hroom] at hopen
      by_cases hc : CanCount s.schedule.clientState.state
      · exact .inr ⟨hc, decryptAppDataOrAlert_of_taken hframing (by omega) hopened hc⟩
      · rw [if_neg hc] at hopen
        exact .inl ⟨_, decryptAppDataOrAlert_of_error hopen⟩

theorem decode_plaintext (o : Outgoing) : decode o.plaintext = .ok o.message := by
  have hstrip : stripPadding o.plaintext = .ok (o.message.contentType, o.message.payload) := by
    have hmarker : o.message.contentType.toU8 ≠ 0 := by
      cases o.message with
      | appData bytes => exact (by decide : ContentType.applicationData.toU8 ≠ 0)
      | alert level description => exact (by decide : ContentType.alert.toU8 ≠ 0)
    rw [stripPadding, Outgoing.plaintext, List.append_assoc, List.singleton_append,
      padEnd_padded hmarker]
    simp [ContentType.of_toU8]
  rw [decode, hstrip, ok_bind]
  cases o.message with
  | appData bytes => rfl
  | alert level description =>
      simp [AppDataOrAlert.contentType, AppDataOrAlert.payload, interpretPayload,
        AlertLevel.of_toU8, AlertDescription.of_toU8]

section Runs

variable {s₀ : KeyScheduleState cs} {sent : List Outgoing} {queries : List (SealedEntry cs)} {n : Nat}

/-- What opens under the counter `n` is the client's message `n`. -/
theorem idealAead_opened (hP : IdealAead P s₀ sent queries) (hn : n < 2 ^ 64)
    (hasked : .ofRecord (KeyScheduleState.nonce (.ofNat n) s₀.iv) record ∈ queries)
    {plaintext : Bytes} (h : openedWith P { s₀ with counter := .ofNat n } record = some plaintext) :
    ∃ o, sent[n]? = some o ∧ plaintext = o.plaintext := by
  obtain ⟨i, o, hi, hnonce, haad, hseal⟩ := hP.authentic _ hasked (Option.isSome_of_eq_some h)
  have hlt : i < sent.length := (List.getElem?_eq_some_iff.mp hi).1
  have hcount : n = i := by
    have hcounts := hP.counts
    have hnat := congrArg UInt64.toNat (KeyScheduleState.nonce_injective hnonce)
    rwa [UInt64.toNat_ofNat_of_lt' hn, UInt64.toNat_ofNat_of_lt' (show i < 2 ^ 64 by omega)] at hnat
  subst hcount
  rw [openedWith, show record.take RECORD_HEADER_LEN = _ from haad] at h
  exact ⟨o, hi, Option.some.inj (h.symm.trans (hP.opens hi hseal))⟩

theorem sealPayload_clientState {payload out : Bytes} {marker : ContentType} {ks : KeySchedule cs}
    (hfit : RECORD_HEADER_LEN + (payload.length + 1 + cs.tagSize) ≤ out.length) :
    (after (sealPayload P payload marker out ks)).clientState = ks.clientState := by
  rw [sealPayload_eq hfit]
  split
  · rfl
  · split <;> rfl

theorem encryptAppData_clientState (plaintext out : Bytes) :
    (after (encryptAppData P plaintext out s)).schedule.clientState = s.schedule.clientState := by
  unfold encryptAppData
  split
  · rfl
  split
  · rfl
  · rw [onSchedule, after_onPart]
    exact sealPayload_clientState (by omega)

theorem encryptAlert_clientState (level : AlertLevel) (description : AlertDescription) (out : Bytes) :
    (after (encryptAlert P level description out s)).schedule.clientState = s.schedule.clientState := by
  unfold encryptAlert
  split
  · rfl
  · rw [onSchedule, after_onPart]
    exact sealPayload_clientState (by simp; omega)

/-- So many messages have been handed out, and so far has the counter come. -/
structure Follows (s₀ : KeyScheduleState cs) (sent : List Outgoing)
    (h : List (Event (Session cs) Call Answer)) (s : Session cs) : Prop where
  state : s.schedule.clientState.state = { s₀ with counter := .ofNat (received h).length }
  values : received h <+: sent.map (·.message)

theorem Follows.of_same {h : List (Event (Session cs) Call Answer)} {e : Event (Session cs) Call Answer}
    (hf : Follows s₀ sent h s) (hout : handedOut e = none)
    (hs : s'.schedule.clientState = s.schedule.clientState) : Follows s₀ sent (e :: h) s' := by
  have hreceived : received (e :: h) = received h := by simp [received, hout]
  exact ⟨by rw [hs, hf.state, hreceived], hreceived ▸ hf.values⟩

theorem Follows.taken {h : List (Event (Session cs) Call Answer)} {e : Event (Session cs) Call Answer}
    {o : Outgoing} (hf : Follows s₀ sent h s) (ho : sent[(received h).length]? = some o)
    (hout : handedOut e = some o.message) :
    Follows s₀ sent (e :: h) { s with schedule := bumpClient s.schedule } := by
  have hreceived : received (e :: h) = received h ++ [o.message] := by simp [received, hout]
  refine ⟨?_, ?_⟩
  · simp only [bumpClient, hf.state, hreceived, List.length_append, List.length_singleton,
      UInt64.ofNat_add]
    rfl
  · obtain ⟨rest, hrest⟩ := hf.values
    have hnext : (sent.map (·.message))[(received h).length]? = some o.message := by
      rw [List.getElem?_map, ho]
      rfl
    rw [← hrest, List.getElem?_append_right le_rfl, Nat.sub_self] at hnext
    cases rest with
    | nil => cases hnext
    | cons m rest =>
        cases hnext
        exact ⟨rest, by rw [hreceived, ← hrest, List.append_assoc]; rfl⟩

theorem step_follows (hP : IdealAead P s₀ sent queries) {h : List (Event (Session cs) Call Answer)}
    (hf : Follows s₀ sent h s) {c : Call} (hc : Transfers c)
    (hasked : askedBy ⟨s, c, (step P X s c).1⟩ ⊆ queries) :
    Follows s₀ sent (⟨s, c, (step P X s c).1⟩ :: h) (step P X s c).2 := by
  cases c with
  | processClientHello msg config out => exact hc.elim
  | processClientFinished record => exact hc.elim
  | decryptAppData record buffer => exact hc.elim
  | encryptAppData plaintext out => exact hf.of_same rfl (encryptAppData_clientState plaintext out)
  | encryptAlert level description out =>
      exact hf.of_same rfl (encryptAlert_clientState level description out)
  | decryptAppDataOrAlert record buffer =>
      simp only [step]
      cases hopened : openedWith P s.schedule.clientState.state record with
      | none =>
          obtain ⟨e, he⟩ := @decryptAppDataOrAlert_of_closed cs P s record buffer hopened
          rw [he]
          exact hf.of_same rfl rfl
      | some plaintext =>
          have hlen : (received h).length < 2 ^ 64 :=
            lt_of_le_of_lt (by simpa using hf.values.length_le) hP.counts
          have hquery := hasked (List.mem_singleton_self _)
          rw [hf.state] at hquery
          obtain ⟨o, ho, rfl⟩ := idealAead_opened hP hlen hquery (hf.state ▸ hopened)
          rcases @decryptAppDataOrAlert_of_opened cs P s record buffer _ hopened with ⟨stop, he⟩ | ⟨-, he⟩
          · rw [he]
            exact hf.of_same rfl rfl
          · rw [he, decode_plaintext]
            exact hf.taken ho rfl

theorem reaches_follows {h : List (Event (Session cs) Call Answer)} {s₀ s : Session cs}
    (hzero : s₀.schedule.clientState.state.counter = 0)
    (hP : IdealAead P s₀.schedule.clientState.state sent (asked h))
    (hr : Reaches (step P X) s₀ h s) (hcalls : ∀ e ∈ h, Transfers e.call) :
    Follows s₀.schedule.clientState.state sent h s := by
  have hall : ∀ {h' : List (Event (Session cs) Call Answer)} {s' : Session cs},
      Reaches (step P X) s₀ h' s' → h' ⊆ h → Follows s₀.schedule.clientState.state sent h' s' := by
    intro h' s' hr hsub
    induction hr with
    | nil => exact ⟨by simp [received, ← hzero], List.nil_prefix⟩
    | call c hr ih =>
        obtain ⟨hlast, hsub⟩ := List.cons_subset.mp hsub
        exact step_follows hP (ih hsub) (hcalls _ hlast) fun q hq => mem_inOrder.mpr ⟨_, hlast, hq⟩
  exact hall hr (List.Subset.refl h)

/-- The client's next record, under the counter the server has come to. -/
theorem openedWith_genuine {s₀ : KeyScheduleState cs} (hP : IdealAead P s₀ sent queries) {o : Outgoing}
    {ciphertext : Bytes} (ho : sent[n]? = some o) (hseal : o.sealedAt P s₀ n = some ciphertext) :
    openedWith P { s₀ with counter := .ofNat n } (protectedRecord ciphertext) = some o.plaintext := by
  have hlen : ciphertext.length = o.plaintext.length + cs.tagSize := P.aeadSeal_length hseal
  rw [openedWith, protectedRecord_take, protectedRecord_drop, hlen]
  exact hP.opens ho hseal

/-- Whatever the network does, the values handed out are the client's messages from the first on;
a record that fails the AEAD leaves no trace; and the next message is taken when it comes. -/
theorem receive_channel {finished : Bytes} {h : List (Event (Session cs) Call Answer)}
    {s s₀ s' : Session cs} (hdone : processClientFinished P finished s = .ok () s₀)
    (hP : IdealAead P s₀.schedule.clientState.state sent (asked h))
    (hr : Reaches (step P X) s₀ h s') (hcalls : ∀ e ∈ h, Transfers e.call) :
    received h <+: sent.map (·.message) ∧
    (∀ record buffer, openedWith P s'.schedule.clientState.state record = none →
      ∃ e, step P X s' (.decryptAppDataOrAlert record buffer) =
        (.dataOrAlert (.error (.err e)), s')) ∧
    ∀ o ciphertext buffer, sent[(received h).length]? = some o →
      o.sealedAt P s₀.schedule.clientState.state (received h).length = some ciphertext →
      ciphertext.length < 256 ^ 2 → ciphertext.length ≤ buffer.length →
      (step P X s' (.decryptAppDataOrAlert (protectedRecord ciphertext) buffer)).1 =
        .dataOrAlert (.ok o.message) := by
  have hzero : s₀.schedule.clientState.state.counter = 0 := by
    obtain ⟨f, rfl⟩ := processClientFinished_eq_ok.mp hdone
    rfl
  have hf := reaches_follows hzero hP hr hcalls
  refine ⟨hf.values, fun record buffer hclosed => ?_, fun o ciphertext buffer ho hseal hsize hroom => ?_⟩
  · obtain ⟨e, he⟩ := @decryptAppDataOrAlert_of_closed cs P s' record buffer hclosed
    exact ⟨e, by rw [step, he]; rfl⟩
  · have hopened := openedWith_genuine hP ho hseal
    have hlt := (List.getElem?_eq_some_iff.mp ho).1
    have hcount : CanCount s'.schedule.clientState.state := by
      have hcounts := hP.counts
      rw [hf.state, CanCount, UInt64.toNat_ofNat_of_lt' (show (received h).length < 2 ^ 64 by omega)]
      omega
    rw [step, decryptAppDataOrAlert_of_taken (checkFraming_protectedRecord hsize) hroom
      (hf.state ▸ hopened) hcount, decode_plaintext]
    rfl

end Runs

end Session

namespace Peer

def outgoing : List Outgoing := [⟨.appData [1, 2, 3], 2⟩, ⟨.alert .warning .closeNotify, 0⟩]

/-- A session that has sent its flight. -/
def answered : Session .aes128GcmSha256 :=
  after (Session.processClientHello suite additive direct config room .new)

def connected : Session .aes128GcmSha256 :=
  after (Session.processClientFinished suite (finishing answered.schedule) answered)

/-- The client's traffic state once its Finished is accepted. -/
def traffic : KeyScheduleState .aes128GcmSha256 := connected.schedule.clientState.state

def genuine (i : Nat) : Bytes :=
  protectedRecord (((outgoing[i]?).bind (·.sealedAt suite traffic i)).getD [])

/-- The second record ahead of the first, a damaged one, and the first one twice. -/
def attack : List Call :=
  [.decryptAppDataOrAlert (genuine 1) room, .decryptAppDataOrAlert (genuine 0 |>.set 9 0) room,
    .encryptAppData [4] room, .decryptAppDataOrAlert (genuine 0) room,
    .decryptAppDataOrAlert (genuine 0) room, .decryptAppDataOrAlert (genuine 1) room]

def attacked : List (Event (Session .aes128GcmSha256) Call Answer) :=
  (runAll (Session.step suite additive) ([], connected) attack).1

theorem connected_eq :
    Session.processClientFinished suite (finishing answered.schedule) answered = .ok () connected := by
  decide +kernel

theorem attacked_received :
    received attacked = [.appData [1, 2, 3], .alert .warning .closeNotify] := by decide +kernel

/-- Of the five records the network delivers, only genuine ones open. -/
theorem attacked_authentic : (asked attacked).length = 5 ∧
    ∀ e ∈ asked attacked, (suite.aeadOpen traffic.key e.nonce e.aad e.ciphertext).isSome →
      ∃ sealing ∈ outgoing.zipIdx, e.nonce = KeyScheduleState.nonce (.ofNat sealing.2) traffic.iv ∧
        e.aad = sealing.1.header .aes128GcmSha256 ∧
        sealing.1.sealedAt suite traffic sealing.2 = some e.ciphertext := by
  decide +kernel

theorem attacked_ideal : IdealAead suite traffic outgoing (asked attacked) where
  opens := fun _ hseal => (Primitives.checksumming_aeadCorrect _).opens hseal
  authentic := by
    intro e he hopen
    obtain ⟨⟨o, i⟩, hmem, hsealed⟩ := attacked_authentic.2 e he hopen
    exact ⟨i, o, List.mk_mem_zipIdx_iff_getElem?.mp hmem, hsealed⟩
  counts := by decide

end Peer

open Peer in
theorem attacked_channel_intact :
    received attacked = [.appData [1, 2, 3], .alert .warning .closeNotify] ∧
      received attacked <+: outgoing.map (·.message) := by
  have hcalls : ∀ e ∈ attacked, Transfers e.call := by decide +kernel
  exact ⟨attacked_received,
    (Session.receive_channel connected_eq attacked_ideal (runAll_reaches .nil attack) hcalls).1⟩

end GatoPskTls.Server
