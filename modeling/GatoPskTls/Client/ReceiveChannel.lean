import GatoPskTls.SealedLog
import GatoPskTls.Client.Split

/-!
# What a client takes from an active network

The network delivers anything: records of the server in another order, twice or not at all,
records of its own, pieces of records, failures. When none of them opens that the server has not
sealed, the bytes the client takes are still the front of the application data the server has
sealed, in the order of sealing.
-/
namespace GatoPskTls.Client

open Stateful History ReadBuffer Threads

variable {cs : TlsCipherSuite} {P : Primitives cs}

/-- Content of a type, and the number of zeros it is padded with. -/
structure Inner where
  contentType : ContentType
  content : Bytes
  padding : Nat
  valid : contentType ≠ .invalid

theorem applicationData_valid : ContentType.applicationData ≠ .invalid := by decide

namespace Inner

def plaintext (x : Inner) : Bytes :=
  x.content ++ x.contentType.toU8 :: List.replicate x.padding 0

/-- The application data. -/
def text (x : Inner) : Bytes := if x.contentType = .applicationData then x.content else []

/-- The application data of some plaintexts. -/
def texts (xs : List Inner) : Bytes := (xs.map text).flatten

end Inner

theorem toU8_ne_zero {contentType : ContentType} (h : contentType ≠ .invalid) :
    contentType.toU8 ≠ 0 := by
  intro hzero
  have hof := contentType.of_toU8
  rw [hzero] at hof
  exact h (Option.some.inj hof).symm

/-- Padding can be taken off in one way. -/
theorem padded_inj {front front' : Bytes} {byte byte' : UInt8} {n n' : Nat} (h : byte ≠ 0)
    (h' : byte' ≠ 0)
    (heq : front ++ byte :: List.replicate n 0 = front' ++ byte' :: List.replicate n' 0) :
    front = front' ∧ byte = byte' := by
  have hlast := congrArg lastNonZero heq
  rw [lastNonZero_padded h, lastNonZero_padded h', Option.some.injEq] at hlast
  obtain ⟨hfront, htail⟩ := List.append_inj heq hlast
  exact ⟨hfront, (List.cons.inj htail).1⟩

theorem Inner.eq_of_holds {x : Inner} {contentType : ContentType} {content : Bytes}
    (hne : contentType ≠ .invalid) (h : Holds x.plaintext contentType content) :
    x.contentType = contentType ∧ x.content = content := by
  obtain ⟨n, heq⟩ := h
  obtain ⟨hcontent, hbyte⟩ := padded_inj (toU8_ne_zero x.valid) (toU8_ne_zero hne) heq
  have hof := congrArg ContentType.of hbyte
  rw [ContentType.of_toU8, ContentType.of_toU8, Option.some.injEq] at hof
  exact ⟨hof, hcontent⟩

section Record

variable {start : Nat} {f : RecordReader.Fetched} {r : Reading cs Handling}

/-- Only tickets and application data go through, and only application data is shown. -/
theorem deliver_shows (header : RecordHeader) {appData : CryptoBuffer} {contentType : ContentType}
    (hoffset : appData.offset = 0) :
    Ends (deliver P (handler start) header appData contentType r)
      (fun _ r₁ => contentType = .handshake ∧ r₁.captured.window = r.captured.window ∨
        contentType = .applicationData ∧ r₁.captured.window = appData.asSlice)
      fun _ r₁ => r₁.captured.window = r.captured.window := by
  cases contentType with
  | invalid => exact rfl
  | changeCipherSpec => exact rfl
  | handshake =>
      have hkept : Keeps SameCaptured (deliver P (handler start) header appData .handshake) :=
        keeps_deliverMessages (keeps_readMessage P) (keeps_handler_message start) _ _
      refine (Ends.of_keeps hkept r).mono ?_ ?_
      · intro _ r₁ hsame
        exact .inl ⟨rfl, congrArg Handling.window hsame⟩
      · intro _ r₁ hsame
        exact congrArg Handling.window hsame
  | alert =>
      simp only [deliver]
      cases hparse : ServerRecord.parsed Alert.parse appData.asSlice with
      | error e => exact rfl
      | ok a =>
          obtain ⟨e, hcall⟩ := @handler_alert cs start r a
          rw [fromResult_ok_bind, hcall]
          exact rfl
  | applicationData =>
      simp only [deliver, handler, Reading.onCaptured, Handling.handle]
      refine .onPart ?_
      rw [Handling.handleData_eq hoffset]
      split
      next hin => exact .inr ⟨trivial, Handling.showing_window hoffset (by omega)⟩
      next => exact rfl

/-- A record changes neither the count nor the window, or it was opened under the count and the
count moves on. -/
theorem Receives.counted {res : EStateM.Result Stop (Reading cs Handling) Unit}
    (h : Receives P (handler start) f r res)
    (hcount : ∀ plaintext, Authentic P r.schedule.state f plaintext → CanCount r.schedule.state) :
    (after res).schedule.state = r.schedule.state ∧
        (after res).captured.window = r.captured.window ∨
      (after res).schedule.state =
          { r.schedule.state with counter := r.schedule.state.counter + 1 } ∧
        ∃ plaintext contentType content, Authentic P r.schedule.state f plaintext ∧
          Holds plaintext contentType content ∧
          (contentType = .handshake ∧ (after res).captured.window = r.captured.window ∨
            contentType = .applicationData ∧ (after res).captured.window = content) := by
  cases h with
  | refused e => exact .inl ⟨rfl, rfl⟩
  | changeCipherSpec hc => exact .inl ⟨rfl, rfl⟩
  | @alert a hc ha =>
      obtain ⟨e, hcall⟩ := @handler_alert cs start r a
      rw [hcall]
      exact .inl ⟨rfl, rfl⟩
  | @message m t hm =>
      have hkeys : (after (handler start (.handshake m)
          { r with schedule.transcriptHash := t })).schedule = _ :=
        keeps_onCaptured (Handling.handle start (.handshake m)) _
      have hstate := congrArg ReadKeySchedule.state hkeys
      exact .inl ⟨hstate, congrArg Handling.window (keeps_handler_message start m _)⟩
  | @content plaintext contentType appData hauth hholds hbuf hoffset =>
      have hkeys : (after (deliver P (handler start) f.header appData contentType r)).schedule.state =
          r.schedule.state :=
        (deliver_transcribes (fun record => keeps_onCaptured (Handling.handle start record)) f.header
          appData contentType r).keys
      have hends := @deliver_shows cs P start r f.header appData contentType hoffset
      cases hdeliver : deliver P (handler start) f.header appData contentType r with
      | error e r₁ =>
          rw [hdeliver] at hkeys
          rw [bind_of_error hdeliver]
          exact .inl ⟨hkeys, hends.error hdeliver⟩
      | ok u r₁ =>
          rw [hdeliver] at hkeys
          have hnext : KeyScheduleState.incrementCounter r₁.schedule.state = .ok () _ :=
            (incrementCounter_eq _).trans
              (if_pos (by rw [show r₁.schedule.state = _ from hkeys]; exact hcount _ hauth))
          rw [bind_of_ok hdeliver, show Reading.onState KeyScheduleState.incrementCounter r₁ = _ from
            onPart_of_ok hnext]
          have hshows := hends.ok hdeliver
          refine .inr ⟨?_, plaintext, contentType, appData.asSlice, hauth, hholds, hshows⟩
          exact congrArg (fun s : KeyScheduleState cs => { s with counter := s.counter + 1 }) hkeys

end Record

/-- The client has taken so many of the plaintexts off the channel, and what is in the window and
in the others is the rest of the stream. -/
structure Holding (s₀ : KeyScheduleState cs) (sent : List Inner) (c : TlsConnection cs)
    (stream : Bytes) (n : Nat) : Prop where
  taken : n ≤ sent.length
  state : c.channel.schedule.serverState.state = advanced s₀ n
  stream : c.window ++ Inner.texts (sent.drop n) = stream

/-- What is left of the stream. -/
def Due (s₀ : KeyScheduleState cs) (sent : List Inner) (stream : Bytes) (c : TlsConnection cs) :
    Prop :=
  ∃ n, Holding s₀ sent c stream n

/-- If the next record opens under a count, then to the plaintext that has that place. -/
def Sound (P : Primitives cs) (s₀ : KeyScheduleState cs) (sent : List Inner) (c : TlsConnection cs) :
    Prop :=
  ∀ f i n plaintext, RecordReader.fetch c.channel.intake = .ok f i →
    c.channel.schedule.serverState.state = advanced s₀ n → n ≤ sent.length →
    Authentic P (advanced s₀ n) f plaintext → ∃ x, sent[n]? = some x ∧ plaintext = x.plaintext

namespace TlsConnection

variable {c : TlsConnection cs} {s₀ : KeyScheduleState cs} {sent : List Inner} {stream : Bytes}

/-- Whatever a record does, the stream is what it was. -/
theorem received_holds (hcount : s₀.counter.toNat + sent.length < 2 ^ 64) {i : Intake}
    {f : RecordReader.Fetched} {n : Nat}
    (hopened : ∀ plaintext, Authentic P (advanced s₀ n) f plaintext →
      ∃ x, sent[n]? = some x ∧ plaintext = x.plaintext)
    (hlen : f.body.length = f.header.contentLength)
    (hstate : c.channel.schedule.serverState.state = advanced s₀ n) (hn : n ≤ sent.length)
    (hempty : c.decrypted.isEmpty) (hstream : Inner.texts (sent.drop n) = stream) :
    Due s₀ sent stream (after (onPart handling putHandling (received P (handler f.start) f)
      { c with channel.intake := i })) := by
  rw [after_onPart]
  have hwindow : (handling { c with channel.intake := i }).captured.window = [] :=
    DecryptedBufferInfo.window_of_isEmpty hempty _
  have hcan : ∀ plaintext, Authentic P (advanced s₀ n) f plaintext → CanCount (advanced s₀ n) := by
    intro plaintext hauth
    obtain ⟨x, hx, -⟩ := hopened plaintext hauth
    have hlt := (List.getElem?_eq_some_iff.mp hx).1
    exact canCount_advanced (by omega)
  have hreceived := receives P (handler f.start) hlen (handling { c with channel.intake := i })
  rcases hreceived.counted (hstate ▸ hcan) with
    ⟨hsame, hshown⟩ | ⟨hnext, plaintext, contentType, content, hauth, hholds, hshown⟩
  · refine ⟨n, hn, hsame.trans hstate, ?_⟩
    exact (congrArg (· ++ _) (hshown.trans hwindow)).trans hstream
  · rw [show (handling { c with channel.intake := i }).schedule.state = _ from hstate] at hauth hnext
    obtain ⟨x, hx, rfl⟩ := hopened plaintext hauth
    have hlt := (List.getElem?_eq_some_iff.mp hx).1
    have hdrop : sent.drop n = x :: sent.drop (n + 1) := by
      rw [List.drop_eq_getElem_cons hlt, (List.getElem?_eq_some_iff.mp hx).2]
    have htext : (after (received P (handler f.start) f
        (handling { c with channel.intake := i }))).captured.window = x.text := by
      rcases hshown with ⟨rfl, hshown⟩ | ⟨rfl, hshown⟩
      · obtain ⟨htype, -⟩ := Inner.eq_of_holds (by decide) hholds
        rw [hshown, hwindow, Inner.text, htype, if_neg (by decide)]
      · obtain ⟨htype, hcontent⟩ := Inner.eq_of_holds (by decide) hholds
        rw [hshown, Inner.text, htype, if_pos rfl, hcontent]
    refine ⟨n + 1, hlt, hnext.trans (advanced_next s₀ n), ?_⟩
    rw [hdrop] at hstream
    exact (congrArg (· ++ _) htext).trans hstream

theorem readApplicationData_due (hcount : s₀.counter.toNat + sent.length < 2 ^ 64)
    (h : Due s₀ sent stream c) (hsound : Sound P s₀ sent c) (hempty : c.decrypted.isEmpty) :
    Due s₀ sent stream (after (readApplicationData P c)) := by
  obtain ⟨n, hn, hstate, hstream⟩ := h
  have hwindow : c.window = [] := DecryptedBufferInfo.window_of_isEmpty hempty _
  rw [hwindow, List.nil_append] at hstream
  cases hfetch : RecordReader.fetch c.channel.intake with
  | error e i =>
      rw [readApplicationData_of_fetch_error hfetch]
      refine ⟨n, hn, hstate, ?_⟩
      exact (congrArg (· ++ _) (DecryptedBufferInfo.window_of_isEmpty hempty _)).trans hstream
  | ok f i =>
      rw [readApplicationData_of_fetch hfetch]
      exact received_holds hcount (fun plaintext => hsound f i n plaintext hfetch hstate hn)
        (RecordReader.fetch_eq_ok hfetch).1 hstate hn hempty hstream

/-- Where every record is sound, nothing the network does costs a byte. -/
theorem due_feeds (P : Primitives cs) (hcount : s₀.counter.toNat + sent.length < 2 ^ 64) :
    Feeds P (Due s₀ sent) (Sound P s₀ sent) fun stream _ => Due s₀ sent stream where
  window := by
    rintro stream c ⟨n, hn, hstate, rfl⟩
    refine ⟨Inner.texts (sent.drop n), rfl, fun count => ⟨n, hn, hstate, ?_⟩⟩
    exact congrArg (· ++ _) (DecryptedBufferInfo.window_pop _ _ _)
  turn := by
    intro stream c hc hsound hempty
    have hread := readApplicationData_due hcount hc hsound hempty
    cases hturn : readApplicationData P c <;> rwa [hturn] at hread
  closed := fun hc _ => hc
  unread := by
    intro stream c e c' hc hbuffer
    obtain ⟨-, rfl⟩ := fromResult_eq_error.mp hbuffer
    exact hc

/-- A call of the writing side leaves the stream alone. -/
theorem runWrite_due (h : Due s₀ sent stream c) (call : WriteCall) :
    Due s₀ sent stream (after (runWrite P call c)) := by
  obtain ⟨n, hn, hstate, hstream⟩ := h
  rw [runWrite_eq, Part.within, after_onPart]
  exact ⟨n, hn, hstate, hstream⟩

/-- What the AEAD is asked to open when the client goes for a record in this state. -/
def asks (c : TlsConnection cs) : Option (SealedEntry cs) :=
  let s := c.channel.schedule.serverState.state
  match RecordReader.fetch c.channel.intake with
  | .ok f _ =>
      if f.header.contentType = .applicationData then
        some ⟨KeyScheduleState.nonce s.counter s.iv, f.header.header.val, f.body⟩
      else none
  | .error _ _ => none

end TlsConnection

abbrev CallEvent (cs : TlsCipherSuite) := Event (TlsConnection cs) (ReadCall ⊕ WriteCall)
  (Reply Stop ReadCall WriteCall Served (Option Nat))

/-- The bytes a call has handed out for good. -/
def takenBy : Reply Stop ReadCall WriteCall Served (Option Nat) → Bytes
  | .inl (call, .ok served) => gone served.data served.slices call.release
  | _ => []

/-- All bytes taken in a history, in order. -/
def taken (h : List (CallEvent cs)) : Bytes := inOrder (fun e => takenBy e.out) h

/-- What a call has the AEAD open. -/
def askedBy (P : Primitives cs) (e : CallEvent cs) : List (SealedEntry cs) :=
  match e.call with
  | .inl call => (e.pre.callTurns P call).filterMap TlsConnection.asks
  | .inr _ => []

/-- All that the AEAD is asked to open in a history. -/
def asked (P : Primitives cs) (h : List (CallEvent cs)) : List (SealedEntry cs) := inOrder (askedBy P) h

/-- Every record a call goes for is sound. -/
def CallEvent.Sound (P : Primitives cs) (s₀ : KeyScheduleState cs) (sent : List Inner)
    (e : CallEvent cs) : Prop :=
  ∀ call, e.call = .inl call → ∀ c ∈ e.pre.callTurns P call, Client.Sound P s₀ sent c

theorem sound_of_unforgeable {s₀ : KeyScheduleState cs} {sent : List Inner}
    {log : List (SealedEntry cs)} {h : List (CallEvent cs)} (hP : Unforgeable P s₀.key log (asked P h))
    (hopens : Recovers P s₀.key log) (hlog : Emits P s₀ (sent.map (·.plaintext)) log)
    (hcount : s₀.counter.toNat + sent.length < 2 ^ 64) : ∀ e ∈ h, CallEvent.Sound P s₀ sent e := by
  intro e he call hcall c hc f i n plaintext hfetch hstate hn hauth
  let entry : SealedEntry cs :=
    ⟨KeyScheduleState.nonce (advanced s₀ n).counter s₀.iv, f.header.header.val, f.body⟩
  have hasks : c.asks = some entry := by
    simp only [TlsConnection.asks, hfetch, hauth.1, if_true, hstate]
    rfl
  have hasked : entry ∈ asked P h := by
    refine mem_inOrder.mpr ⟨e, he, ?_⟩
    rw [askedBy, hcall]
    exact List.mem_filterMap.mpr ⟨c, hc, hasks⟩
  have hplace := hP.opened hopens hlog (by simpa using hcount.le) (by omega) hasked rfl hauth.2
  rw [List.getElem?_map, Option.map_eq_some_iff] at hplace
  obtain ⟨x, hx, rfl⟩ := hplace
  exact ⟨x, hx, rfl⟩

section Run

variable {s₀ : KeyScheduleState cs} {sent : List Inner}
  (hcount : s₀.counter.toNat + sent.length < 2 ^ 64)
include hcount

/-- What was taken and what is left are the application data. -/
theorem taken_due {c₀ c : TlsConnection cs} {stream : Bytes} {h : List (CallEvent cs)}
    (hstart : Due s₀ sent stream c₀) (hr : Reaches (TlsConnection.callStep P) c₀ h c)
    (hsound : ∀ e ∈ h, CallEvent.Sound P s₀ sent e) :
    ∃ rest, taken h ++ rest = stream ∧ Due s₀ sent rest c := by
  refine hr.drains ?_ hstart hsound
  intro rest c call hc hsound
  cases call with
  | inr call => exact ⟨rest, rfl, TlsConnection.runWrite_due hc call⟩
  | inl call =>
      have hends := (TlsConnection.due_feeds P hcount).runCall hc call (hsound call rfl)
      simp only [TlsConnection.callStep]
      cases hcall : TlsConnection.runCall P call c with
      | ok served c' =>
          obtain ⟨rest', hgone, hc', -⟩ := hends.ok hcall
          exact ⟨rest', hgone, hc'⟩
      | error e c' => exact ⟨rest, rfl, hends.error hcall⟩

/-- What the client takes is the front of what is left, and each read shows what stands behind
the bytes taken before it. -/
theorem taken_in_order {c₀ c : TlsConnection cs} {h : List (CallEvent cs)} {stream : Bytes}
    (hstart : Due s₀ sent stream c₀) (hr : Reaches (TlsConnection.callStep P) c₀ h c)
    (hsound : ∀ e ∈ h, CallEvent.Sound P s₀ sent e) :
    taken h <+: stream ∧ ∀ newer e older, h = newer ++ e :: older → ∀ call served,
      e.out = .inl (call, .ok served) → Follows (stream.drop (taken older).length) served.slices := by
  obtain ⟨rest, hrest, -⟩ := taken_due hcount hstart hr hsound
  refine ⟨⟨rest, hrest⟩, ?_⟩
  rintro newer e older rfl call served hserved
  obtain ⟨holder, hout, -⟩ := hr.split
  obtain ⟨-, hlast, holds⟩ := List.forall_mem_append.mp hsound |>.imp id List.forall_mem_cons.mp
  obtain ⟨rest, hrest, hc⟩ := taken_due hcount hstart holder holds
  rw [hout] at hserved
  rw [← hrest, List.drop_left]
  cases hcall : e.call with
  | inr call' =>
      rw [hcall] at hserved
      cases hserved
  | inl call' =>
      rw [hcall, TlsConnection.callStep, Sum.inl.injEq, Prod.mk.injEq] at hserved
      have hends := (TlsConnection.due_feeds P hcount).runCall hc call' (hlast call' hcall)
      obtain ⟨_, -, -, hfollows⟩ := hends.ok (outcome_eq_ok hserved.2)
      exact hfollows

end Run

theorem due_of_isEmpty {c : TlsConnection cs} (sent : List Inner) (hempty : c.decrypted.isEmpty) :
    Due c.channel.schedule.serverState.state sent (Inner.texts sent) c :=
  ⟨0, Nat.zero_le _, (advanced_zero _).symm,
    congrArg (· ++ _) (DecryptedBufferInfo.window_of_isEmpty hempty _)⟩

/-- Whatever the network delivers, the bytes the client takes are the front of the application
data the server has sealed: nothing is added, dropped, repeated or moved. -/
theorem active_network_integrity {c₀ c : TlsConnection cs} {sent : List Inner}
    {log : List (SealedEntry cs)} {h : List (CallEvent cs)}
    (hlog : Emits P c₀.channel.schedule.serverState.state (sent.map (·.plaintext)) log)
    (hopens : Recovers P c₀.channel.schedule.serverState.state.key log)
    (hP : Unforgeable P c₀.channel.schedule.serverState.state.key log (asked P h))
    (hcount : c₀.channel.schedule.serverState.state.counter.toNat + sent.length < 2 ^ 64)
    (hempty : c₀.decrypted.isEmpty) (hr : Reaches (TlsConnection.callStep P) c₀ h c) :
    taken h <+: Inner.texts sent ∧ ∀ newer e older, h = newer ++ e :: older → ∀ call served,
      e.out = .inl (call, .ok served) →
      Follows ((Inner.texts sent).drop (taken older).length) served.slices :=
  taken_in_order hcount (due_of_isEmpty sent hempty) hr (sound_of_unforgeable hP hopens hlog hcount)

namespace Peer

def mail : List Inner :=
  [⟨.applicationData, [104, 105], 2, applicationData_valid⟩,
    ⟨.applicationData, [33], 0, applicationData_valid⟩]

/-- The keys the server seals under. -/
def inbound : KeyScheduleState Peer.cs := (connection []).channel.schedule.serverState.state

/-- The record of a letter under its count. -/
def mailed (n : Nat) : Bytes :=
  (((mail[n]?).map (·.plaintext)).bind (sealedRecord suite (advanced inbound n))).getD []

def mailLog : List (SealedEntry Peer.cs) :=
  [0, 1].map fun n =>
    .ofRecord (KeyScheduleState.nonce (advanced inbound n).counter inbound.iv) (mailed n)

/-- The second letter ahead of the first, the first one damaged, whole and once more, then the
second, an error of the transport before it. -/
def ambushed : TlsConnection Peer.cs :=
  { connection [] with
    channel.intake.transport :=
      [.chunk (mailed 1), .chunk ((mailed 0).set 6 0), .chunk (mailed 0), .chunk (mailed 0),
        .failure .interrupted, .chunk (mailed 1)] }

def insisting : List (CallEvent Peer.cs) × TlsConnection Peer.cs :=
  runAll (TlsConnection.callStep suite) ([], ambushed)
    [.inl (.read 5), .inl (.read 5), .inr (.write [1]), .inl (.read 1), .inl (.read 5), .inl (.read 5),
      .inl (.read 5), .inr .flush, .inl (.read 5)]

theorem insisting_reaches :
    Reaches (TlsConnection.callStep suite) ambushed insisting.1 insisting.2 := by
  unfold insisting
  exact runAll_reaches .nil _

theorem mail_sealed : ∀ n x, mail[n]? = some x →
    sealedRecord suite (advanced inbound n) x.plaintext = some (mailed n) := by
  intro n x hx
  obtain ⟨record, hrecord⟩ : ∃ record,
      sealedRecord suite (advanced inbound n) x.plaintext = some record :=
    ⟨_, rfl⟩
  rw [hrecord, mailed, hx, Option.map_some, Option.bind_some, hrecord]
  rfl

theorem mail_emitted : Emits suite inbound (mail.map (·.plaintext)) mailLog :=
  (Emits.nil.snoc (mail_sealed 0 _ rfl)).snoc (mail_sealed 1 _ rfl)

/-- The AEAD is asked for five records and opens two. -/
theorem ambush_unforgeable : (asked suite insisting.1).length = 5 ∧
    Unforgeable suite inbound.key mailLog (asked suite insisting.1) := by
  unfold Unforgeable
  decide +kernel

theorem ambushed_state : ambushed.channel.schedule.serverState.state = inbound := by
  simp only [ambushed, inbound]

theorem ambushed_ready :
    ambushed.channel.schedule.serverState.state.counter.toNat + mail.length < 2 ^ 64 ∧
      ambushed.decrypted.isEmpty := by
  decide +kernel

end Peer

theorem ambush_withstood :
    taken Peer.insisting.1 = [104, 105, 33] ∧
      taken Peer.insisting.1 <+: Inner.texts Peer.mail ∧
      ∀ newer e older, Peer.insisting.1 = newer ++ e :: older → ∀ call served,
        e.out = .inl (call, .ok served) →
        Follows ((Inner.texts Peer.mail).drop (taken older).length) served.slices := by
  have hlog := Peer.mail_emitted
  have hP := Peer.ambush_unforgeable.2
  have hopens := (Primitives.checksumming_aeadCorrect Peer.cs).recovers Peer.inbound.key Peer.mailLog
  rw [← Peer.ambushed_state] at hlog hP hopens
  exact ⟨by decide +kernel, active_network_integrity hlog hopens hP Peer.ambushed_ready.1
    Peer.ambushed_ready.2 Peer.insisting_reaches⟩

end GatoPskTls.Client
