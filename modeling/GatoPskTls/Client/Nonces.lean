import GatoPskTls.Lib.Numbering
import GatoPskTls.Nonce
import GatoPskTls.Client.Sending

/-!
# The client's nonces

The counter moves on when the transport has taken a whole record. A record that was sealed and
handed over in part leaves its count to the next one.
-/
namespace GatoPskTls.Client

open Stateful BigEndian History Numbering

variable {cs : TlsCipherSuite} {P : Primitives cs}

/-- A record is sealed under this key and nonce, or is visibly unprotected. -/
inductive Framed (P : Primitives cs) (key : GenericArray cs.keyLen) (nonce : GenericArray cs.ivLen) :
    Bytes → Prop
  | sealed {plaintext ciphertext : Bytes} :
      P.aeadSeal key nonce (additionalData (plaintext.length + cs.tagSize)) plaintext =
        some ciphertext →
      Framed P key nonce (additionalData (plaintext.length + cs.tagSize) ++ ciphertext)
  | plain {record : Bytes} : record.head? ≠ some ContentType.applicationData.toU8 →
      Framed P key nonce record

theorem Framed.of_sealedRecord {s : KeyScheduleState cs} {plaintext record : Bytes}
    (h : sealedRecord P s plaintext = some record) :
    Framed P s.key (KeyScheduleState.nonce s.counter s.iv) record := by
  obtain ⟨ciphertext, hseal, rfl⟩ := Option.map_eq_some_iff.mp h
  exact .sealed hseal

/-- The entry is the record of a count. -/
structure Carries (P : Primitives cs) (s₀ : KeyScheduleState cs) (e : Sent cs) (n : Nat) : Prop where
  bound : n < 2 ^ 64
  key : e.key = s₀.key
  nonce : e.nonce = KeyScheduleState.nonce (UInt64.ofNat n) s₀.iv
  framed : Framed P e.key e.nonce e.record

theorem carries_code {s₀ : KeyScheduleState cs} (x y : Sent cs) (m n : Nat) (hx : Carries P s₀ x m)
    (hy : Carries P s₀ y n) : (x.key, x.nonce) = (y.key, y.nonce) ↔ m = n := by
  constructor
  · intro h
    have hnonce := (Prod.mk.inj h).2
    rw [hx.nonce, hy.nonce] at hnonce
    have hcount := congrArg UInt64.toNat (KeyScheduleState.nonce_injective hnonce)
    rwa [UInt64.toNat_ofNat_of_lt' hx.bound, UInt64.toNat_ofNat_of_lt' hy.bound] at hcount
  · rintro rfl
    rw [hx.key, hy.key, hx.nonce, hy.nonce]

/-- The log from a key schedule state on. -/
abbrev Logged (P : Primitives cs) (s₀ : KeyScheduleState cs) (sent : List (Sent cs)) : Prop :=
  Numbered Sent.completed (Carries P s₀) s₀.counter.toNat sent

/-- Nothing but the count has changed, and it counts the records taken. -/
structure Current (s₀ : KeyScheduleState cs) (c : Channel cs) : Prop where
  key : c.writeState.key = s₀.key
  iv : c.writeState.iv = s₀.iv
  counter : c.writeState.counter.toNat =
    s₀.counter.toNat + c.outgoing.sent.countP Sent.completed

variable {s₀ : KeyScheduleState cs}

namespace Channel

variable {c : Channel cs} {record : Bytes}

theorem wrote_logged (hcurrent : Current s₀ c) (hlogged : Logged P s₀ c.outgoing.sent)
    (hframed : Framed P c.writeState.key (KeyScheduleState.nonce c.writeState.counter c.writeState.iv)
      record) :
    Logged P s₀ (c.wrote record).outgoing.sent := by
  refine ⟨⟨?_, hcurrent.key, ?_, hframed⟩, hlogged⟩
  · rw [← hcurrent.counter]
    exact c.writeState.counter.toNat_lt
  · rw [← hcurrent.counter, UInt64.ofNat_toNat, ← hcurrent.iv]
    rfl

theorem transmit_logged (hcurrent : Current s₀ c) (hlogged : Logged P s₀ c.outgoing.sent)
    (hframed : Framed P c.writeState.key (KeyScheduleState.nonce c.writeState.counter c.writeState.iv)
      record) :
    Ends (transmit record c)
      (fun _ c' => Current s₀ c' ∧ Logged P s₀ c'.outgoing.sent ∧ c'.buffer = c.buffer)
      fun e c' => Logged P s₀ c'.outgoing.sent ∧
        (e ≠ .panic → Current s₀ c' ∧ c'.buffer = c.buffer) := by
  have hwrote := wrote_logged hcurrent hlogged hframed
  have hcounts : (c.wrote record).outgoing.sent.countP Sent.completed =
      c.outgoing.sent.countP Sent.completed + if c.outgoing.plan.headD .done = .done then 1 else 0 := by
    simp [wrote, Outgoing.wrote, Outgoing.entry, List.countP_cons]
  rw [transmit_eq]
  by_cases hdone : c.outgoing.plan.headD .done = .done
  · rw [hdone]
    simp only [IoOutcome.result]
    by_cases hcan : CanCount c.writeState
    · rw [if_pos hcan]
      refine ⟨⟨hcurrent.key, hcurrent.iv, ?_⟩, hwrote, rfl⟩
      rw [if_pos hdone] at hcounts
      change (c.writeState.counter + 1).toNat =
        s₀.counter.toNat + (c.wrote record).outgoing.sent.countP Sent.completed
      rw [canCount_next hcan, hcounts, hcurrent.counter, Nat.add_assoc]
    · rw [if_neg hcan]
      exact ⟨hwrote, fun hne => absurd rfl hne⟩
  · obtain ⟨e, hresult, hne⟩ := IoOutcome.result_of_ne_done hdone
    rw [hresult]
    rw [if_neg hdone] at hcounts
    exact ⟨hwrote, fun _ => ⟨⟨hcurrent.key, hcurrent.iv,
      hcurrent.counter.trans (congrArg _ hcounts).symm⟩, rfl⟩⟩

end Channel

namespace TlsConnection

/-- Whatever the buffer holds, the log and the count are in order. -/
structure Counting (P : Primitives cs) (s₀ : KeyScheduleState cs) (c : TlsConnection cs) : Prop where
  current : Current s₀ c.channel
  logged : Logged P s₀ c.channel.outgoing.sent
  length : TLS_RECORD_OVERHEAD < c.channel.buffer.buffer.length

/-- Between calls: the buffer is empty, or collects a record, or holds what the AEAD refused. -/
structure Sending (P : Primitives cs) (s₀ : KeyScheduleState cs) (c : TlsConnection cs) : Prop
    extends Counting P s₀ c where
  buffer : c.channel.buffer.Idle ∨
    (∃ payload, c.channel.buffer.Holds .applicationData payload ∧
      c.channel.buffer.pos ≤ c.channel.buffer.buffer.length - TLS_RECORD_OVERHEAD) ∨
    c.channel.buffer.pos ≠ 0 ∧ c.channel.buffer.currentHeader = none

/-- After a failure the log is in order, and unless it was a panic so is the rest. -/
def Left (P : Primitives cs) (s₀ : KeyScheduleState cs) (e : Stop) (c : TlsConnection cs) : Prop :=
  Logged P s₀ c.channel.outgoing.sent ∧ (e ≠ .panic → Sending P s₀ c)

variable {c : TlsConnection cs}

theorem Counting.withBuffer (hc : Counting P s₀ c) {w : WriteBuffer}
    (hlen : TLS_RECORD_OVERHEAD < w.buffer.length) : Counting P s₀ (c.withBuffer w) :=
  ⟨⟨hc.current.key, hc.current.iv, hc.current.counter⟩, hc.logged, hlen⟩

theorem Sending.flushTransport (hc : Sending P s₀ c) :
    Sending P s₀ { c with channel.outgoing.plan := c.channel.outgoing.plan.tail } :=
  ⟨⟨⟨hc.current.key, hc.current.iv, hc.current.counter⟩, hc.logged, hc.length⟩, hc.buffer⟩

theorem flushTransport_sending (hc : Sending P s₀ c) :
    Ends (onChannel Channel.flushTransport c)
      (fun _ c' => Sending P s₀ c' ∧ c'.channel.buffer = c.channel.buffer) (Left P s₀) := by
  refine .onPart ?_
  rw [Channel.flushTransport_eq]
  cases (c.channel.outgoing.plan.headD .done).result with
  | ok u => exact ⟨hc.flushTransport, rfl⟩
  | error e => exact ⟨hc.logged, fun _ => hc.flushTransport⟩

theorem transmit_sending (hc : Sending P s₀ c) {record : Bytes}
    (hframed : Framed P c.channel.writeState.key
      (KeyScheduleState.nonce c.channel.writeState.counter c.channel.writeState.iv) record) :
    Ends (onChannel (Channel.transmit record) c)
      (fun _ c' => Sending P s₀ c' ∧ c'.channel.buffer = c.channel.buffer) (Left P s₀) := by
  refine .onPart ((Channel.transmit_logged hc.current hc.logged hframed).mono ?_ ?_)
  · rintro _ ch ⟨hcurrent, hlogged, hbuffer⟩
    exact ⟨⟨⟨hcurrent, hlogged, hbuffer ▸ hc.length⟩, hbuffer ▸ hc.buffer⟩, hbuffer⟩
  · rintro e ch ⟨hlogged, hrest⟩
    refine ⟨hlogged, fun hne => ?_⟩
    obtain ⟨hcurrent, hbuffer⟩ := hrest hne
    exact ⟨⟨hcurrent, hlogged, hbuffer ▸ hc.length⟩, hbuffer ▸ hc.buffer⟩

theorem send_sending (hc : Sending P s₀ c) {record : Bytes}
    (hframed : Framed P c.channel.writeState.key
      (KeyScheduleState.nonce c.channel.writeState.counter c.channel.writeState.iv) record) :
    Ends (send record c) (fun _ c' => Sending P s₀ c' ∧ c'.channel.buffer = c.channel.buffer)
      (Left P s₀) := by
  simp only [send, get_bind_apply]
  refine .bind ((transmit_sending hc hframed).mono ?_ fun _ _ h => h)
  rintro _ c' ⟨hc', hbuffer⟩
  split
  · exact (flushTransport_sending hc').mono (fun _ _ h => ⟨h.1, h.2.trans hbuffer⟩) fun _ _ h => h
  · exact ⟨hc', hbuffer⟩

theorem flush_sending (hc : Sending P s₀ c) :
    Ends (flush P c) (fun _ c' => Sending P s₀ c' ∧ c'.channel.buffer.Idle) (Left P s₀) := by
  rcases hc.buffer with hidle | ⟨payload, hholds, hpos⟩ | ⟨hpos, hheader⟩
  · rw [flush_of_isEmpty (by simp [WriteBuffer.isEmpty, hidle.pos])]
    exact ⟨hc, hidle⟩
  · have hlen := hc.length
    simp only [TLS_RECORD_OVERHEAD] at hlen hpos
    have hroom : c.channel.buffer.pos + 1 + cs.tagSize ≤ c.channel.buffer.buffer.length := by
      rw [TlsCipherSuite.tagSize]
      omega
    cases hseal : sealedRecord P c.channel.writeState
        (ClientRecordHeader.applicationData.plaintext payload) with
    | some record =>
        obtain ⟨buffer, hflush, hbuffer⟩ := flush_of_some hholds hroom hseal
        rw [hflush]
        have hc' : Sending P s₀ (c.withBuffer ⟨buffer, 0, none⟩) :=
          ⟨hc.withBuffer (hbuffer ▸ hc.length), .inl ⟨rfl, rfl⟩⟩
        exact (send_sending hc' (.of_sealedRecord hseal)).mono
          (fun _ _ h => ⟨h.1, h.2 ▸ ⟨rfl, rfl⟩⟩) fun _ _ h => h
    | none =>
        obtain ⟨buffer, hflush, hbuffer⟩ := flush_of_none hholds hroom hseal
        rw [hflush]
        refine ⟨hc.logged, fun _ => ⟨hc.withBuffer (hbuffer ▸ hc.length), .inr (.inr ⟨?_, rfl⟩)⟩⟩
        rw [hholds.pos_eq, HEADER_SIZE]
        omega
  · rw [flush_of_broken hpos hheader]
    exact ⟨hc.logged, fun hne => absurd rfl hne⟩

theorem collect_sending (hc : Counting P s₀ c) {payload : Bytes}
    (hholds : c.channel.buffer.Holds .applicationData payload) (buf : Bytes) :
    Ends (collect P buf c) (fun _ c' => Sending P s₀ c') (Left P s₀) := by
  by_cases hpos : c.channel.buffer.pos ≤ c.channel.buffer.buffer.length - TLS_RECORD_OVERHEAD
  · obtain ⟨w, hw, hlen, hcollect⟩ := collect_eq (P := P) hholds (Nat.le_of_lt hc.length) hpos buf
    have hfits : w.pos ≤ w.buffer.length - TLS_RECORD_OVERHEAD := by
      have hwpos := hw.pos_eq
      rw [List.length_append, List.length_take, roomIn, ← Nat.add_assoc, ← hholds.pos_eq] at hwpos
      omega
    have hc' : Sending P s₀ (c.withBuffer w) :=
      ⟨hc.withBuffer (hlen ▸ hc.length), .inr (.inl ⟨_, hw, hfits⟩)⟩
    rw [hcollect]
    split
    · exact .bind ((flush_sending hc').mono (fun _ _ h => h.1) fun _ _ h => h)
    · exact hc'
  · rw [collect_of_overfull (Nat.le_of_lt hc.length) (Nat.lt_of_not_le hpos)]
    exact ⟨hc.logged, fun hne => absurd rfl hne⟩

theorem write_sending (hc : Sending P s₀ c) (buf : Bytes) :
    Ends (write P buf c) (fun _ c' => Sending P s₀ c') (Left P s₀) := by
  by_cases hopen : c.opened
  · rw [write_eq P hopen]
    rcases hc.buffer with hidle | ⟨payload, hholds, hpos⟩ | ⟨hpos, hheader⟩
    · have hroom : HEADER_SIZE ≤ c.channel.buffer.buffer.length := by
        have := hc.length
        simp only [TLS_RECORD_OVERHEAD, HEADER_SIZE] at *
        omega
      obtain ⟨w, hstart, hw, hlen⟩ := startRecord_of_idle (P := P) hidle hroom
      rw [bind_of_ok hstart]
      exact collect_sending (hc.withBuffer (hlen ▸ hc.length)) hw buf
    · rw [bind_of_ok (startRecord_of_holds hholds)]
      exact collect_sending hc.toCounting hholds buf
    · rw [bind_of_error (startRecord_of_broken hpos hheader)]
      exact ⟨hc.logged, fun hne => absurd rfl hne⟩
  · have hwrite : write P buf c = .error (.err .missingHandshake) c := by
      simp only [write, get_bind_apply, hopen, Bool.false_eq_true, if_false, throw_apply]
    rw [hwrite]
    exact ⟨hc.logged, fun _ => hc⟩

theorem closeInternal_logged (hc : Sending P s₀ c) :
    Logged P s₀ (after (closeInternal P c)).channel.outgoing.sent := by
  have hends : Ends (closeInternal P c) (fun _ c' => Logged P s₀ c'.channel.outgoing.sent)
      fun _ c' => Logged P s₀ c'.channel.outgoing.sent := by
    refine .bind ((flush_sending hc).mono ?_ fun _ _ h => h.1)
    rintro _ c₁ ⟨hc₁, hidle⟩
    rw [get_bind_apply]
    refine .bind ((writeRecord_closeNotify hidle (Nat.le_of_lt hc₁.length) c₁.opened).mono ?_ ?_)
    · rintro record c₂ ⟨hout, hschedule, hrecord⟩
      have hcurrent : Current s₀ c₂.channel := by
        refine ⟨?_, ?_, ?_⟩
        · rw [Channel.writeState, hschedule]
          exact hc₁.current.key
        · rw [Channel.writeState, hschedule]
          exact hc₁.current.iv
        · rw [Channel.writeState, hschedule, hout]
          exact hc₁.current.counter
      have hframed : Framed P c₂.channel.writeState.key
          (KeyScheduleState.nonce c₂.channel.writeState.counter c₂.channel.writeState.iv) record := by
        rw [Channel.writeState, hschedule]
        split at hrecord
        · exact .of_sealedRecord hrecord
        · exact .plain (by rw [hrecord]; decide)
      have hsent := Channel.transmit_logged hcurrent (hout ▸ hc₁.logged) hframed
      refine .bind (.onPart (hsent.mono (fun _ c₃ h => ?_) fun _ _ h => h.1))
      refine .onPart ?_
      rw [Channel.flushTransport_eq]
      cases (c₃.outgoing.plan.headD .done).result <;> exact h.2.1
    · rintro e c₂ hout
      exact hout ▸ hc₁.logged
  cases hclose : closeInternal P c with
  | ok u c' => exact hends.ok hclose
  | error e c' => exact hends.error hclose

/-- Nothing about sending has changed. -/
abbrev SameOutput : TlsConnection cs → TlsConnection cs → Prop :=
  Order.Preimage channel Channel.SameOutput

theorem sending_of_sameOutput {c' : TlsConnection cs} (h : SameOutput c c') (hc : Sending P s₀ c) :
    Sending P s₀ c' := by
  obtain ⟨hbuffer', houtgoing, -, hclient⟩ := h
  obtain ⟨⟨⟨hkey, hiv, hcounter⟩, hlogged, hlength⟩, hbuffer⟩ := hc
  simp only [Channel.writeState] at hkey hiv hcounter
  rw [← hclient] at hkey hiv hcounter
  rw [← houtgoing] at hcounter hlogged
  rw [← hbuffer'] at hlength hbuffer
  exact ⟨⟨⟨hkey, hiv, hcounter⟩, hlogged, hlength⟩, hbuffer⟩

theorem keeps_output_readApplicationData : Keeps SameOutput (readApplicationData P) := by
  have hread : Keeps SameOutput (onChannel (Channel.read P)) :=
    (Channel.keeps_output_read P).onPart fun _ _ h => h
  refine hread.bind fun _ => ?_
  exact Keeps.onPart (R := fun _ _ => True) (fun _ => trivial) fun _ _ _ => ⟨rfl, rfl, rfl, rfl⟩

theorem keeps_output_createReadBuffer : Keeps (@SameOutput cs) createReadBuffer :=
  Keeps.get.bind fun _ => .fromResult _

theorem keeps_output_pop (count : Nat) : Keeps (@SameOutput cs) (pop count) :=
  keeps_output_createReadBuffer.bind fun _ =>
    (Keeps.modify fun _ => ⟨rfl, rfl, rfl, rfl⟩).bind fun _ => .pure _

end TlsConnection

namespace Phase

variable {π : Type} {pr : CryptoProvider π}

def Sends (P : Primitives cs) (s₀ : KeyScheduleState cs) : Phase cs π → Prop
  | opening _ _ _ => False
  | connected c => c.Sending P s₀
  | gone c => Logged P s₀ c.channel.outgoing.sent

theorem Sends.logged {s : Phase cs π} (h : s.Sends P s₀) : Logged P s₀ s.sent := by
  cases s with
  | opening o state flushPolicy => exact h.elim
  | connected c => exact (show c.Sending P s₀ from h).logged
  | gone c => exact h

theorem answered_sends {α : Type} {answer : α → Answer} {r : EStateM.Result Stop (TlsConnection cs) α}
    (h : Ends r (fun _ c => c.Sending P s₀) (TlsConnection.Left P s₀)) :
    (answered answer r : _ × Phase cs π).2.Sends P s₀ := by
  cases r with
  | ok a c => exact h
  | error e c =>
      cases e with
      | panic => exact h.1
      | err e => exact h.2 nofun
      | abandoned => exact h.2 nofun

theorem answered_sends_of_keeps {α : Type} {answer : α → Answer} {x : TlsConnection.M cs α}
    {c : TlsConnection cs} (hx : Keeps TlsConnection.SameOutput x) (hc : c.Sending P s₀) :
    (answered answer (x c) : _ × Phase cs π).2.Sends P s₀ :=
  answered_sends ((Ends.of_keeps hx c).mono (fun _ _ h => TlsConnection.sending_of_sameOutput h hc)
    fun _ _ h => have hsending := TlsConnection.sending_of_sameOutput h hc
      ⟨hsending.logged, fun _ => hsending⟩)

theorem step_sends (s : Phase cs π) (call : Call) (h : s.Sends P s₀) :
    (step P pr s call).2.Sends P s₀ := by
  cases s with
  | opening o state flushPolicy => exact h.elim
  | gone c => cases call <;> exact h
  | connected c =>
      cases call with
      | process => exact h
      | turn =>
          simp only [step]
          split
          · exact answered_sends_of_keeps TlsConnection.keeps_output_readApplicationData h
          · exact h
      | peek => exact answered_sends_of_keeps TlsConnection.keeps_output_createReadBuffer h
      | pop count => exact answered_sends_of_keeps (TlsConnection.keeps_output_pop count) h
      | write buf => exact answered_sends (TlsConnection.write_sending h buf)
      | flush =>
          exact answered_sends ((TlsConnection.flush_sending h).mono (fun _ _ h => h.1) fun _ _ h => h)
      | close => exact TlsConnection.closeInternal_logged h

end Phase

/-- The record is encrypted, and at least one of its bytes reached the transport. -/
def Sent.Exposed (e : Sent cs) : Prop :=
  e.record.head? = some ContentType.applicationData.toU8 ∧ 0 < e.taken

instance (e : Sent cs) : Decidable e.Exposed :=
  inferInstanceAs (Decidable (e.record.head? = some ContentType.applicationData.toU8 ∧ 0 < e.taken))

/-- Two different records, both encrypted and both seen by the transport. -/
def Sent.Clash (b a : Sent cs) : Prop := a.Exposed ∧ b.Exposed ∧ a.record ≠ b.record

instance (b a : Sent cs) : Decidable (b.Clash a) :=
  inferInstanceAs (Decidable (a.Exposed ∧ b.Exposed ∧ a.record ≠ b.record))

/-- No two different records are encrypted under one key and nonce. -/
def NoncesUnique (sent : List (Sent cs)) : Prop :=
  sent.Pairwise fun b a => b.Clash a → (b.key, b.nonce) ≠ (a.key, a.nonce)

instance (sent : List (Sent cs)) : Decidable (NoncesUnique sent) :=
  inferInstanceAs (Decidable (sent.Pairwise fun b a => b.Clash a → (b.key, b.nonce) ≠ (a.key, a.nonce)))

theorem TlsConnection.Fresh.sending {c : TlsConnection cs} (h : c.Fresh) :
    c.Sending P c.channel.writeState where
  current := ⟨rfl, rfl, by rw [h.sent]; rfl⟩
  logged := by rw [h.sent]; trivial
  length := h.length
  buffer := .inl h.idle

section

variable {π : Type} {pr : CryptoProvider π} {c : TlsConnection cs} {h : List (ClientEvent cs π)}
  {s : Phase cs π}

theorem reaches_sends (hc : c.Fresh) (hr : Reaches (Phase.step P pr) (.connected c) h s) :
    s.Sends P c.channel.writeState :=
  hr.invariant (fun _ s => s.Sends P c.channel.writeState) hc.sending
    fun _ s call _ hs => Phase.step_sends s call hs

/-- What is noted with a record is what it was sealed under. -/
theorem sent_framed (hc : c.Fresh) (hr : Reaches (Phase.step P pr) (.connected c) h s) :
    ∀ e ∈ s.sent, Framed P e.key e.nonce e.record := by
  intro e he
  obtain ⟨n, hcarries⟩ := (reaches_sends hc hr).logged.carries_of_mem he
  exact hcarries.framed

/-- Every record is sealed under the key and nonce noted with it, and these are unique exactly when
the transport has taken a whole record between any two different ones it has seen, the older of the
two included. -/
theorem nonces_unique_iff (hc : c.Fresh) (hr : Reaches (Phase.step P pr) (.connected c) h s) :
    (∀ e ∈ s.sent, Framed P e.key e.nonce e.record) ∧
      (NoncesUnique s.sent ↔
        ∀ newer b mid a older, s.sent = newer ++ b :: (mid ++ a :: older) → b.Clash a →
          ∃ e ∈ a :: mid, e.completed) :=
  ⟨sent_framed hc hr, (reaches_sends hc hr).logged.pairwise_iff carries_code⟩

end

namespace Peer

/-- Two records are written. -/
def twoRecords (plan : List IoOutcome) :
    List (ClientEvent Peer.cs Unit) × Phase Peer.cs Unit :=
  runAll (Phase.step suite (provider true)) ([], .connected (sender plan))
    [.write [97], .flush, .write [98], .flush]

theorem twoRecords_reaches (plan : List IoOutcome) :
    Reaches (Phase.step suite (provider true)) (.connected (sender plan)) (twoRecords plan).1
      (twoRecords plan).2 := by
  unfold twoRecords
  exact runAll_reaches .nil _

theorem twoRecords_sent : (twoRecords []).2.sent.map (·.completed) = [true, true] := by
  decide +kernel

end Peer

theorem taken_records_differ :
    (∀ e ∈ (Peer.twoRecords []).2.sent, Framed Peer.suite e.key e.nonce e.record) ∧
      NoncesUnique (Peer.twoRecords []).2.sent := by
  obtain ⟨hframed, hunique⟩ :=
    nonces_unique_iff (Peer.sender_fresh []) (Peer.twoRecords_reaches [])
  refine ⟨hframed, hunique.mpr ?_⟩
  intro newer b mid a older heq _
  refine ⟨a, List.mem_cons_self, ?_⟩
  have hmem : a.completed ∈ (Peer.twoRecords []).2.sent.map (·.completed) := by
    rw [heq]
    simp
  rw [Peer.twoRecords_sent] at hmem
  simpa using hmem

/-- The transport fails behind the third byte of the first record: two different records are sealed
under one key and nonce. -/
theorem failed_record_shares_nonce :
    (∀ e ∈ (Peer.twoRecords [.failed 3 .other]).2.sent, Framed Peer.suite e.key e.nonce e.record) ∧
      ¬NoncesUnique (Peer.twoRecords [.failed 3 .other]).2.sent := by
  exact ⟨sent_framed (Peer.sender_fresh [.failed 3 .other])
    (Peer.twoRecords_reaches [.failed 3 .other]), by decide +kernel⟩

end GatoPskTls.Client
