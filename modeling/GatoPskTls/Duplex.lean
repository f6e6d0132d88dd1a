import GatoPskTls.Client.Nonces
import GatoPskTls.Client.ReceiveChannel
import GatoPskTls.Server.ReceiveChannel

/-!
# A connection between the client and the server

A client and a session that have agreed on their keys, with an active network between them. Each
side makes its calls in any order, and the client's transport takes what it is given. When no
record is delivered to either side that opens and was not sealed by the other, the bytes each side
hands out are the front of the bytes the other side has taken from its owner.
-/
namespace GatoPskTls

open Stateful History Client Client.TlsConnection
open Server (Session X25519 Transfers received AppDataOrAlert)

variable {cs : TlsCipherSuite} {P : Primitives cs}

namespace Client

/-- The records a client has given to its transport, the first first. -/
def sealedLog (c : TlsConnection cs) : List (SealedEntry cs) :=
  c.channel.outgoing.sent.reverse.map fun e => .ofRecord e.nonce e.record

/-- The bytes a call has taken from its caller. -/
def writtenBy : Threads.Reply Stop ReadCall Client.WriteCall Served (Option Nat) → Bytes
  | .inr (.write buf, .ok (some n)) => buf.take n
  | _ => []

/-- All bytes written in a history, in order. -/
def written (h : List (CallEvent cs)) : Bytes := inOrder (fun e => writtenBy e.out) h

/-- The plaintext of a record of application data. -/
abbrev appPlaintext (payload : Bytes) : Bytes := ClientRecordHeader.applicationData.plaintext payload

/-- A record that opens and was framed has been sealed, with what came out of it. -/
theorem sealed_of_receive (hP : P.AeadCorrect) {s : KeyScheduleState cs} {record payload : Bytes}
    (hframed : Framed P s.key (KeyScheduleState.nonce s.counter s.iv) record)
    (h : receive P s record = some payload) :
    sealedRecord P s (appPlaintext payload) = some record := by
  simp only [receive, Option.bind_eq_bind] at h
  split at h
  next hheader =>
    obtain ⟨opened, hopen, hlast⟩ := Option.bind_eq_some_iff.mp h
    split at hlast
    next hmarker =>
      cases hlast
      have hopened : appPlaintext opened.dropLast = opened := List.dropLast_append_getLast? _ hmarker
      rw [hopened]
      cases hframed with
      | plain hplain =>
          rw [← List.take_append_drop HEADER_SIZE record, hheader] at hplain
          exact absurd rfl hplain
      | @sealed plaintext ciphertext hseal =>
          have hsize : (additionalData (plaintext.length + cs.tagSize)).length = HEADER_SIZE := by
            simp [additionalData, HEADER_SIZE]
          rw [List.take_left' hsize, List.drop_left' hsize, hP.opens hseal] at hopen
          cases hopen
          exact Option.map_eq_some_iff.mpr ⟨ciphertext, hseal, rfl⟩
    next => cases hlast
  next => cases h

/-- The writing side of a connection between two calls. -/
structure Writes (P : Primitives cs) (s₀ : KeyScheduleState cs) (c : TlsConnection cs)
    (payloads : List Bytes) (pending : Bytes) : Prop where
  streaming : Streaming P s₀ { c with opened := true } payloads pending
  sending : Sending P s₀ c

section Writes

variable {s₀ : KeyScheduleState cs} {c : TlsConnection cs} {payloads : List Bytes} {pending : Bytes}

/-- Every record was taken whole. -/
theorem Writes.completed (h : Writes P s₀ c payloads pending) :
    ∀ e ∈ c.channel.outgoing.sent, e.completed := by
  have hlength := h.streaming.counter
  have hcount := h.sending.current.counter
  exact List.countP_eq_length.mp (by
    have : c.channel.writeState.counter.toNat = s₀.counter.toNat + c.channel.outgoing.sent.length :=
      hlength
    omega)

theorem receiveAll_eq_concat {n : Nat} {records : List Bytes} {record : Bytes}
    (h : receiveAll P s₀ n (records ++ [record]) = some payloads) :
    ∃ init last, payloads = init ++ [last] ∧ receiveAll P s₀ n records = some init ∧
      init.length = records.length ∧
      receive P (advanced s₀ (n + records.length)) record = some last := by
  induction records generalizing n payloads with
  | nil =>
      simp only [List.nil_append, receiveAll, Option.bind_eq_bind, Option.bind_eq_some_iff] at h
      obtain ⟨last, hlast, _, hnil, hpayloads⟩ := h
      cases hnil
      cases hpayloads
      exact ⟨[], last, rfl, rfl, rfl, hlast⟩
  | cons r records ih =>
      simp only [List.cons_append, receiveAll, Option.bind_eq_bind, Option.bind_eq_some_iff] at h
      obtain ⟨first, hfirst, rest, hrest, hpayloads⟩ := h
      cases hpayloads
      obtain ⟨init, last, rfl, hinit, hlength, hlast⟩ := ih hrest
      refine ⟨first :: init, last, rfl, ?_, congrArg (· + 1) hlength, ?_⟩
      · simp [receiveAll, hfirst, hinit]
      · rwa [Nat.add_assoc, Nat.add_comm 1] at hlast

/-- Records taken whole stand under the counts of their places. -/
theorem emits_of_logged (hP : P.AeadCorrect) {sent : List (Sent cs)} (hlogged : Logged P s₀ sent)
    (hcompleted : ∀ e ∈ sent, e.completed)
    (hreceived : receiveAll P s₀ 0 (sent.reverse.map (·.record)) = some payloads) :
    Emits P s₀ (payloads.map appPlaintext) (sent.reverse.map fun e => .ofRecord e.nonce e.record) := by
  induction sent generalizing payloads with
  | nil =>
      cases hreceived
      exact .nil
  | cons e older ih =>
      obtain ⟨hcarries, hlogged⟩ := hlogged
      obtain ⟨-, hcompleted⟩ := List.forall_mem_cons.mp hcompleted
      rw [List.reverse_cons, List.map_append] at hreceived
      obtain ⟨init, last, rfl, hinit, hlength, hlast⟩ := receiveAll_eq_concat hreceived
      rw [List.length_map, List.length_reverse] at hlength
      rw [List.length_map, List.length_reverse, Nat.zero_add, ← hlength] at hlast
      have hplaces : older.countP Sent.completed = init.length := by
        rw [hlength]
        exact List.countP_eq_length.mpr hcompleted
      have hnonce : e.nonce = KeyScheduleState.nonce
          (advanced s₀ (init.map appPlaintext).length).counter s₀.iv := by
        rw [hcarries.nonce, hplaces, List.length_map]
        rfl
      have hframed := hcarries.framed
      rw [hcarries.key, hnonce, List.length_map] at hframed
      have hsealed := sealed_of_receive hP hframed hlast
      rw [← List.length_map appPlaintext] at hsealed
      rw [List.map_append, List.reverse_cons, List.map_append]
      have hemits := (ih hlogged hcompleted hinit).snoc hsealed
      rw [← hnonce] at hemits
      exact hemits

theorem Writes.emits (hP : P.AeadCorrect) (h : Writes P s₀ c payloads pending) :
    Emits P s₀ (payloads.map appPlaintext) (sealedLog c) :=
  emits_of_logged hP h.sending.logged h.completed h.streaming.received

theorem flush_of_opened {b : Bool} {c' : TlsConnection cs} {u : Unit}
    (h : flush P { c with opened := b } = .ok u c') :
    flush P c = .ok u { c' with opened := c.opened } := by
  rw [← TlsWriter.within_flush] at h ⊢
  obtain ⟨half, hhalf, rfl⟩ := onPart_eq_ok.mp h
  exact onPart_of_ok hhalf

theorem write_of_closed (h : ¬c.opened) (buf : Bytes) :
    write P buf c = .error (.err .missingHandshake) c := by
  simp only [write, get_bind_apply, h, Bool.false_eq_true, if_false, throw_apply]

theorem reopened (h : c.opened) : ({ c with opened := true } : TlsConnection cs) = c := by
  rw [← h]

theorem flush_writes (hP : P.AeadCorrect) (h : Writes P s₀ c payloads pending)
    (hcount : CanCount c.channel.writeState) :
    ∃ c' payloads', flush P c = .ok () c' ∧ Writes P s₀ c' payloads' [] ∧
      payloads'.flatten = payloads.flatten ++ pending ∧
      c'.channel.outgoing.sent.length ≤ c.channel.outgoing.sent.length + 1 := by
  obtain ⟨c', payloads', hflush, hstream, hflat, -, hsent⟩ :=
    flush_streams hP h.streaming hcount
  have hflush' := flush_of_opened hflush
  refine ⟨_, payloads', hflush', ⟨?_, ((flush_sending h.sending).ok hflush').1⟩, hflat, hsent⟩
  exact reopened hstream.opened ▸ hstream

theorem write_writes (hP : P.AeadCorrect) (h : Writes P s₀ c payloads pending)
    (hcount : CanCount c.channel.writeState) (hopen : c.opened) (buf : Bytes) :
    ∃ n c' payloads' pending', write P buf c = .ok n c' ∧ Writes P s₀ c' payloads' pending' ∧
      payloads'.flatten ++ pending' = payloads.flatten ++ pending ++ buf.take n ∧
      c'.channel.outgoing.sent.length ≤ c.channel.outgoing.sent.length + 1 := by
  have hstreaming := h.streaming
  rw [reopened hopen] at hstreaming
  obtain ⟨n, c', payloads', pending', hwrite, hstream, hflat, hsent⟩ :=
    write_streams hP hstreaming hcount buf
  refine ⟨n, c', payloads', pending', hwrite, ⟨?_, (write_sending h.sending buf).ok hwrite⟩, hflat,
    hsent⟩
  exact (reopened hstream.opened).symm ▸ hstream

/-- Whichever call it is, what the peer can open and what is pending grow by what was taken. -/
theorem runWrite_writes (hP : P.AeadCorrect) (h : Writes P s₀ c payloads pending)
    (hcount : CanCount c.channel.writeState) (call : Client.WriteCall) :
    ∃ payloads' pending', Writes P s₀ (after (runWrite P call c)) payloads' pending' ∧
      payloads'.flatten ++ pending' = payloads.flatten ++ pending ++
        writtenBy (.inr (call, outcome (runWrite P call c))) ∧
      (after (runWrite P call c)).channel.outgoing.sent.length ≤
        c.channel.outgoing.sent.length + 1 := by
  cases call with
  | flush =>
      obtain ⟨c', payloads', hflush, hc', hflat, hsent⟩ := flush_writes hP h hcount
      rw [runWrite, bind_of_ok hflush]
      refine ⟨payloads', [], hc', ?_, hsent⟩
      simp [writtenBy, hflat]
  | write buf =>
      by_cases hopen : c.opened
      · obtain ⟨n, c', payloads', pending', hwrite, hc', hflat, hsent⟩ :=
          write_writes hP h hcount hopen buf
        rw [runWrite, bind_of_ok hwrite]
        exact ⟨payloads', pending', hc', hflat, hsent⟩
      · rw [runWrite, bind_of_error (write_of_closed hopen buf)]
        exact ⟨payloads, pending, h, by simp [writtenBy], Nat.le_succ _⟩

theorem Writes.of_writer {c' : TlsConnection cs} (h : Writes P s₀ c payloads pending)
    (hw : c'.split.right = c.split.right) : Writes P s₀ c' payloads pending := by
  obtain ⟨⟨intake, outgoing, buffer, ⟨shared, clientState, serverState⟩⟩, opened, decrypted,
    flushPolicy⟩ := c'
  cases hw
  obtain ⟨hs, hsend⟩ := h
  exact ⟨⟨rfl, hs.accepts, hs.key, hs.iv, hs.counter, hs.received, hs.length, hs.buffer⟩,
    ⟨⟨⟨hsend.current.key, hsend.current.iv, hsend.current.counter⟩, hsend.logged, hsend.length⟩,
      hsend.buffer⟩⟩

theorem runCall_writer (call : ReadCall) : (after (runCall P call c)).split.right = c.split.right := by
  rw [← TlsReader.within_runCall, Threads.Part.within, after_onPart]
  rfl

/-- A run so far: the records and the buffer hold what was written. -/
theorem reaches_writes (hP : P.AeadCorrect) {c₀ c : TlsConnection cs} (hc₀ : c₀.Fresh)
    (haccepts : ∀ outcome ∈ c₀.channel.outgoing.plan, outcome = .done)
    (hlength : TLS_RECORD_OVERHEAD + 6 ≤ c₀.channel.buffer.buffer.length ∧
      c₀.channel.buffer.buffer.length ≤ 16640)
    {h : List (CallEvent cs)} (hr : Reaches (callStep P) c₀ h c)
    (hcount : c₀.channel.writeState.counter.toNat + h.length < 2 ^ 64) :
    ∃ payloads pending, Writes P c₀.channel.writeState c payloads pending ∧
      payloads.flatten ++ pending = written h ∧
      c.channel.outgoing.sent.length ≤ h.length := by
  induction hr with
  | nil =>
      refine ⟨[], [], ⟨⟨rfl, haccepts, rfl, rfl, ?_, ?_, hlength, .inl ⟨hc₀.idle, rfl⟩⟩,
        hc₀.sending⟩, rfl, ?_⟩
      · exact congrArg (fun sent => _ + List.length sent) hc₀.sent.symm
      · exact congrArg (fun sent => receiveAll P _ 0 (sent.reverse.map Sent.record)) hc₀.sent
      · rw [hc₀.sent]
        exact Nat.zero_le _
  | @call h c call hr ih =>
      rw [List.length_cons] at hcount
      obtain ⟨payloads, pending, hc, hflat, hsent⟩ := ih (by omega)
      cases call with
      | inl call =>
          have hwriter := @runCall_writer cs P c call
          refine ⟨payloads, pending, hc.of_writer hwriter, ?_, ?_⟩
          · simpa [callStep, written, writtenBy] using hflat
          · have hout := congrArg (fun w : WriterHalf cs => w.outgoing.sent.length) hwriter
            exact hout.le.trans (hsent.trans (Nat.le_succ _))
      | inr call =>
          have hcan : CanCount c.channel.writeState := by
            have hcounter : c.channel.writeState.counter.toNat =
              c₀.channel.writeState.counter.toNat + c.channel.outgoing.sent.length :=
                hc.streaming.counter
            simp only [CanCount]
            omega
          obtain ⟨payloads', pending', hc', hflat', hsent'⟩ := runWrite_writes hP hc hcan call
          refine ⟨payloads', pending', hc', ?_, hsent'.trans (Nat.succ_le_succ hsent)⟩
          rw [hflat', hflat, written, written, inOrder_cons]
          rfl

end Writes

end Client

namespace Server

theorem alert_valid : ContentType.alert ≠ .invalid := by decide

/-- What a call has sealed, and the record. -/
def sealedBy (e : Event (Session cs) Call Answer) : Option (Inner × SealedEntry cs) :=
  let entry := SealedEntry.ofRecord (KeyScheduleState.nonce
    e.pre.schedule.serverState.state.counter e.pre.schedule.serverState.state.iv)
  match e.call, e.out with
  | .encryptAppData plaintext _, .bytes (.ok record) =>
      some (⟨.applicationData, plaintext, 0, applicationData_valid⟩, entry record)
  | .encryptAlert level description _, .bytes (.ok record) =>
      some (⟨.alert, [level.toU8, description.toU8], 0, alert_valid⟩, entry record)
  | _, _ => none

/-- All that was sealed in a history, the first first. -/
def sealings (h : List (Event (Session cs) Call Answer)) : List (Inner × SealedEntry cs) :=
  inOrder (fun e => (sealedBy e).toList) h

/-- The bytes a call has taken from its caller. -/
def postedBy (e : Event (Session cs) Call Answer) : Bytes :=
  match e.call, e.out with
  | .encryptAppData plaintext _, .bytes (.ok _) => plaintext
  | _, _ => []

/-- The application data sealed in a history, in order. -/
def posted (h : List (Event (Session cs) Call Answer)) : Bytes := inOrder postedBy h

theorem sealings_cons (e : Event (Session cs) Call Answer) (h : List (Event (Session cs) Call Answer)) :
    sealings (e :: h) = sealings h ++ (sealedBy e).toList := inOrder_cons _ e h

theorem texts_sealedBy (e : Event (Session cs) Call Answer) :
    Inner.texts ((sealedBy e).toList.map Prod.fst) = postedBy e := by
  obtain ⟨pre, call, out⟩ := e
  unfold sealedBy postedBy
  split <;> simp_all [Inner.texts, Inner.text]

theorem texts_sealings (h : List (Event (Session cs) Call Answer)) :
    Inner.texts ((sealings h).map Prod.fst) = posted h := by
  induction h with
  | nil => rfl
  | cons e h ih =>
      rw [sealings_cons, posted, inOrder_cons, ← texts_sealedBy]
      rw [posted] at ih
      simp [Inner.texts, ← ih]

namespace Session

variable {X : X25519} {s : Session cs}

/-- A call that seals leaves the session alone, or counts one more record. -/
def Seals (P : Primitives cs) (s : Session cs) (payload : Bytes) (marker : ContentType)
    (r : EStateM.Result Stop (Session cs) Bytes) : Prop :=
  (∃ stop, r = .error stop s) ∨ ∃ record, r = .ok record { s with schedule := bumpServer s.schedule } ∧
    CanCount s.schedule.serverState.state ∧
    sealedRecord P s.schedule.serverState.state (payload ++ [marker.toU8]) = some record

theorem sealPayload_seals {payload out : Bytes} {marker : ContentType}
    (hfit : RECORD_HEADER_LEN + (payload.length + 1 + cs.tagSize) ≤ out.length) :
    Seals P s payload marker (onSchedule (sealPayload P payload marker out) s) := by
  have hseal := @sealPayload_eq cs P s.schedule payload out marker hfit
  cases hct : sealedWith P s.schedule.serverState.state payload marker with
  | none =>
      rw [hct] at hseal
      exact .inl ⟨_, onPart_of_error hseal⟩
  | some ciphertext =>
      simp only [hct] at hseal
      by_cases hcan : CanCount s.schedule.serverState.state
      · simp only [if_pos hcan] at hseal
        refine .inr ⟨_, onPart_of_ok hseal, hcan, ?_⟩
        have hlen : ciphertext.length = (payload ++ [marker.toU8]).length + cs.tagSize := by
          rw [sealedWith_length hct]
          simp
        rw [sealedRecord, ← hlen, protectedRecord]
        rw [sealedWith, ← sealedWith_length hct] at hct
        exact Option.map_eq_some_iff.mpr ⟨ciphertext, hct, rfl⟩
      · simp only [if_neg hcan] at hseal
        exact .inl ⟨_, onPart_of_error hseal⟩

theorem encryptAppData_seals (plaintext out : Bytes) :
    Seals P s plaintext .applicationData (encryptAppData P plaintext out s) := by
  unfold encryptAppData
  split
  · exact .inl ⟨_, rfl⟩
  split
  · exact .inl ⟨_, rfl⟩
  · exact sealPayload_seals (by omega)

theorem encryptAlert_seals (level : AlertLevel) (description : AlertDescription) (out : Bytes) :
    Seals P s [level.toU8, description.toU8] .alert (encryptAlert P level description out s) := by
  unfold encryptAlert
  split
  · exact .inl ⟨_, rfl⟩
  · exact sealPayload_seals (by simp; omega)

theorem decryptAppDataOrAlert_serverState (record buffer : Bytes) :
    (after (decryptAppDataOrAlert P record buffer s)).schedule.serverState =
      s.schedule.serverState := by
  cases hopened : openedWith P s.schedule.clientState.state record with
  | none =>
      obtain ⟨e, he⟩ := @decryptAppDataOrAlert_of_closed cs P s record buffer hopened
      rw [he]
      rfl
  | some plaintext =>
      rcases @decryptAppDataOrAlert_of_opened cs P s record buffer plaintext hopened with
        ⟨stop, he⟩ | ⟨-, he⟩
      · rw [he]
        rfl
      · rw [he]
        cases (decode plaintext).mapError Stop.err <;> rfl

/-- A run so far: the records stand under the counts of their places. -/
structure Posts (P : Primitives cs) (s₀ : KeyScheduleState cs)
    (h : List (Event (Session cs) Call Answer)) (s : Session cs) : Prop where
  state : s.schedule.serverState.state = advanced s₀ (sealings h).length
  bound : s₀.counter.toNat + (sealings h).length < 2 ^ 64
  emits : Emits P s₀ (((sealings h).map Prod.fst).map Inner.plaintext) ((sealings h).map Prod.snd)

variable {s₀ : KeyScheduleState cs} {h : List (Event (Session cs) Call Answer)}

theorem Posts.of_same {s' : Session cs} {e : Event (Session cs) Call Answer} (hp : Posts P s₀ h s)
    (he : sealedBy e = none) (hs : s'.schedule.serverState = s.schedule.serverState) :
    Posts P s₀ (e :: h) s' := by
  have hsealings : sealings (e :: h) = sealings h := by simp [sealings_cons, he]
  exact ⟨by rw [hs, hp.state, hsealings], hsealings ▸ hp.bound, hsealings ▸ hp.emits⟩

/-- One more record. -/
theorem Posts.sealed {call : Call} {out : Answer} {payload record : Bytes} {marker : ContentType}
    (hp : Posts P s₀ h s) (hvalid : marker ≠ .invalid) (hcan : CanCount s.schedule.serverState.state)
    (hrecord : sealedRecord P s.schedule.serverState.state (payload ++ [marker.toU8]) = some record)
    (he : sealedBy ⟨s, call, out⟩ = some (⟨marker, payload, 0, hvalid⟩,
      .ofRecord (KeyScheduleState.nonce s.schedule.serverState.state.counter
        s.schedule.serverState.state.iv) record)) :
    Posts P s₀ (⟨s, call, out⟩ :: h) { s with schedule := bumpServer s.schedule } := by
  rw [hp.state] at hcan hrecord he
  have hsealings := sealings_cons ⟨s, call, out⟩ h
  rw [he, Option.toList_some] at hsealings
  refine ⟨?_, ?_, ?_⟩
  · rw [hsealings, List.length_append, List.length_singleton, ← advanced_next, ← hp.state]
    rfl
  · rw [CanCount, advanced_counter hp.bound] at hcan
    rw [hsealings, List.length_append, List.length_singleton]
    omega
  · rw [hsealings, List.map_append, List.map_append, List.map_append]
    have hlength : (sealings h).length = (((sealings h).map Prod.fst).map Inner.plaintext).length := by
      simp
    rw [hlength] at hrecord ⊢
    exact hp.emits.snoc hrecord

theorem step_posts (hp : Posts P s₀ h s) {call : Call} (hc : Transfers call) :
    Posts P s₀ (⟨s, call, (step P X s call).1⟩ :: h) (step P X s call).2 := by
  cases call with
  | processClientHello msg config out => exact hc.elim
  | processClientFinished record => exact hc.elim
  | decryptAppData record buffer => exact hc.elim
  | decryptAppDataOrAlert record buffer =>
      exact hp.of_same rfl (decryptAppDataOrAlert_serverState record buffer)
  | encryptAppData plaintext out =>
      simp only [step]
      rcases @encryptAppData_seals cs P s plaintext out with ⟨stop, he⟩ | ⟨record, he, hcan, hrecord⟩
      · rw [he]
        exact hp.of_same rfl rfl
      · rw [he]
        exact hp.sealed applicationData_valid hcan hrecord rfl
  | encryptAlert level description out =>
      simp only [step]
      rcases @encryptAlert_seals cs P s level description out with
        ⟨stop, he⟩ | ⟨record, he, hcan, hrecord⟩
      · rw [he]
        exact hp.of_same rfl rfl
      · rw [he]
        exact hp.sealed alert_valid hcan hrecord rfl

theorem reaches_posts {s₀ : Session cs} (hr : Reaches (step P X) s₀ h s)
    (hcalls : ∀ e ∈ h, Transfers e.call) : Posts P s₀.schedule.serverState.state h s := by
  induction hr with
  | nil => exact ⟨(advanced_zero _).symm, UInt64.toNat_lt _, .nil⟩
  | call c hr ih =>
      obtain ⟨hc, hcalls⟩ := List.forall_mem_cons.mp hcalls
      exact step_posts (ih hcalls) hc

end Session

theorem plaintext_appData (payload : Bytes) :
    (⟨.appData payload, 0⟩ : Outgoing).plaintext = appPlaintext payload :=
  List.append_nil _

theorem advanced_counter_of_zero {s : KeyScheduleState cs} (hzero : s.counter = 0) (i : Nat) :
    (advanced s i).counter = .ofNat i := by
  simp [advanced, hzero]

/-- The client's records are all of what the session is given that opens. -/
theorem idealAead_of_unforgeable {s : KeyScheduleState cs} {payloads : List Bytes}
    {log : List (SealedEntry cs)} (hzero : s.counter = 0) (hlog : Emits P s (payloads.map appPlaintext) log)
    (hcount : payloads.length < 2 ^ 64) (hP : P.AeadCorrect) {queries : List (SealedEntry cs)}
    (hauthentic : Unforgeable P s.key log queries) :
    IdealAead P s (payloads.map fun payload => ⟨.appData payload, 0⟩) queries where
  opens := fun _ hseal => hP.opens hseal
  authentic := by
    intro e he hopen
    obtain ⟨i, plaintext, hplaintext, hnonce, haad, hseal⟩ := hlog.mem (hauthentic e he hopen)
    rw [List.getElem?_map, Option.map_eq_some_iff] at hplaintext
    obtain ⟨payload, hpayload, rfl⟩ := hplaintext
    rw [advanced_counter_of_zero hzero] at hnonce
    refine ⟨i, ⟨.appData payload, 0⟩, ?_, hnonce, ?_, ?_⟩
    · rw [List.getElem?_map, hpayload]
      rfl
    · rw [haad, Outgoing.header, plaintext_appData]
      rfl
    · rw [Outgoing.sealedAt, Outgoing.header, plaintext_appData, ← hnonce]
      rw [haad] at hseal
      exact hseal
  counts := by simpa using hcount

end Server

/-- A call of either side, with its answer. -/
abbrev DuplexEvent (cs : TlsCipherSuite) := Event (TlsConnection cs × Session cs)
  ((ReadCall ⊕ Client.WriteCall) ⊕ Server.Call)
  (Threads.Reply Stop ReadCall Client.WriteCall Served (Option Nat) ⊕ Server.Answer)

/-- Whatever the network delivers to the two sides and however their calls are mixed, as long as the
client's transport takes every record whole, the server hands out the front of what the client's
owner has written, and the client the front of what the server's owner has posted. -/
theorem duplex_integrity {X : X25519} (hP : P.AeadCorrect) {c₀ c : TlsConnection cs}
    {s₀ s : Session cs} {h : List (DuplexEvent cs)}
    (hfresh : c₀.Fresh) (haccepts : ∀ outcome ∈ c₀.channel.outgoing.plan, outcome = .done)
    (hlength : TLS_RECORD_OVERHEAD + 6 ≤ c₀.channel.buffer.buffer.length ∧
      c₀.channel.buffer.buffer.length ≤ 16640)
    (hempty : c₀.decrypted.isEmpty)
    (hupward : s₀.schedule.clientState.state = c₀.channel.writeState)
    (hdownward : s₀.schedule.serverState.state = c₀.channel.schedule.serverState.state)
    (hzero : c₀.channel.writeState.counter = 0)
    (hr : Reaches (beside (callStep P) (Session.step P X)) (c₀, s₀) h (c, s))
    (hcalls : ∀ e ∈ h.filterMap Event.right?, Transfers e.call) (hcount : h.length < 2 ^ 64)
    (hclient : Unforgeable P c₀.channel.writeState.key (sealedLog c)
      (Server.asked (h.filterMap Event.right?)))
    (hserver : Unforgeable P s₀.schedule.serverState.state.key
      ((Server.sealings (h.filterMap Event.right?)).map Prod.snd)
      (Client.asked P (h.filterMap Event.left?))) :
    ((∀ value ∈ received (h.filterMap Event.right?), ∃ bytes, value = .appData bytes) ∧
      ((received (h.filterMap Event.right?)).map AppDataOrAlert.payload).flatten <+:
        written (h.filterMap Event.left?)) ∧
    taken (h.filterMap Event.left?) <+: Server.posted (h.filterMap Event.right?) := by
  obtain ⟨hleft, hright⟩ := hr.of_beside
  have hshort := List.length_filterMap_le Event.left? h
  constructor
  · obtain ⟨payloads, pending, hwrites, hflat, hsent⟩ :=
      reaches_writes hP hfresh haccepts hlength hleft (by rw [hzero]; simp; omega)
    have hemits := hwrites.emits hP
    have hpayloads : payloads.length < 2 ^ 64 := by
      have hlog := hemits.length_eq
      simp only [List.length_map, sealedLog, List.length_reverse] at hlog
      exact (hlog ▸ hsent).trans_lt (hshort.trans_lt hcount)
    have hideal := Server.idealAead_of_unforgeable hzero hemits hpayloads hP hclient
    rw [← hupward] at hideal hzero
    obtain ⟨rest, hrest⟩ := (Server.Session.reaches_follows hzero hideal hright hcalls).values
    rw [List.map_map] at hrest
    constructor
    · intro value hvalue
      have hmem := List.mem_append_left rest hvalue
      rw [hrest, List.mem_map] at hmem
      obtain ⟨payload, -, rfl⟩ := hmem
      exact ⟨payload, rfl⟩
    · have hbytes := congrArg (fun values => (values.map AppDataOrAlert.payload).flatten) hrest
      have hself : AppDataOrAlert.payload ∘ ((·.message) ∘ fun payload : Bytes =>
          (⟨.appData payload, 0⟩ : Server.Outgoing)) = id := rfl
      simp only [List.map_append, List.flatten_append, List.map_map, hself, List.map_id] at hbytes
      exact ⟨_, by rw [← hflat, ← hbytes, List.append_assoc]⟩
  · have hposts := Server.Session.reaches_posts hright hcalls
    have hemits := hposts.emits
    have hbound : s₀.schedule.serverState.state.counter.toNat +
        ((Server.sealings (h.filterMap Event.right?)).map Prod.fst).length < 2 ^ 64 := by
      simpa using hposts.bound
    rw [← Server.texts_sealings]
    rw [hdownward] at hserver hemits hbound
    exact (active_network_integrity hemits (hP.recovers _ _) hserver hbound hempty hleft).1

namespace Exchange

open Client.Peer (suite installed sender)
open Server.Peer (room additive)

/-- Keys that the checksums of the suite tell apart. -/
def keys : KeySchedule Client.Peer.cs := { installed with serverState.state.key := .zeros 16 }

/-- A session with the keys of the client. -/
def keyed : Session Client.Peer.cs := { (Session.new : Session Client.Peer.cs) with schedule := keys }

def upward : Bytes :=
  (((after (flush suite (after (write suite [7, 8] (sender []))))).channel.outgoing.sent.head?).map
    (·.record)).getD []

def downward : Bytes :=
  match Session.encryptAppData suite [1, 2] room keyed with
  | .ok record _ => record
  | .error _ _ => []

def upwardLog : List (SealedEntry Client.Peer.cs) :=
  [.ofRecord (KeyScheduleState.nonce 0 keys.clientState.state.iv) upward]

def downwardLog : List (SealedEntry Client.Peer.cs) :=
  [.ofRecord (KeyScheduleState.nonce 0 keys.serverState.state.iv) downward]

/-- The client's transport brings its own record back, then the server's, twice. -/
def mirrored : TlsConnection Client.Peer.cs :=
  { sender [] with
    channel.schedule := keys
    channel.intake.transport := [.chunk upward, .chunk downward, .chunk downward] }

/-- Both sides send, and get what is theirs, what is not, and what they have had. -/
def exchange : List (DuplexEvent Client.Peer.cs) × (TlsConnection Client.Peer.cs × Session Client.Peer.cs) :=
  runAll (beside (callStep suite) (Session.step suite additive)) ([], (mirrored, keyed))
    [.inl (.inr (.write [7, 8])), .inr (.encryptAppData [1, 2] room), .inl (.inl (.read 4)),
      .inl (.inr .flush), .inr (.decryptAppDataOrAlert downward room),
      .inr (.decryptAppDataOrAlert upward room), .inr (.decryptAppDataOrAlert upward room),
      .inl (.inl (.read 1)), .inl (.inl (.read 4)), .inl (.inl (.read 4))]

theorem exchange_reaches : Reaches (beside (callStep suite) (Session.step suite additive))
    (mirrored, keyed) exchange.1 (exchange.2.1, exchange.2.2) := by
  rw [Prod.mk.eta]
  unfold exchange
  exact runAll_reaches .nil _

theorem mirrored_fresh : mirrored.Fresh := by
  obtain ⟨hopened, hsent, hidle, hlength⟩ := Client.Peer.sender_fresh []
  exact ⟨hopened, hsent, hidle, hlength⟩

theorem exchange_keys : keyed.schedule.clientState.state = mirrored.channel.writeState ∧
    keyed.schedule.serverState.state = mirrored.channel.schedule.serverState.state ∧
    mirrored.channel.writeState = keys.clientState.state := by
  simp [keyed, mirrored]

/-- Either side is given three records, and the record of the other side is all that opens. -/
theorem exchange_unforgeable :
    (Server.asked (exchange.1.filterMap Event.right?)).length = 3 ∧
      Unforgeable suite keys.clientState.state.key upwardLog
        (Server.asked (exchange.1.filterMap Event.right?)) ∧
      (Client.asked suite (exchange.1.filterMap Event.left?)).length = 3 ∧
      Unforgeable suite keys.serverState.state.key downwardLog
        (Client.asked suite (exchange.1.filterMap Event.left?)) := by
  unfold Unforgeable
  decide +kernel

theorem exchange_logs : Client.sealedLog exchange.2.1 = upwardLog ∧
    (Server.sealings (exchange.1.filterMap Event.right?)).map Prod.snd = downwardLog := by
  decide +kernel

theorem exchange_ready : mirrored.channel.writeState.counter = 0 ∧ mirrored.decrypted.isEmpty ∧
    mirrored.channel.outgoing.plan = [] ∧
    (TLS_RECORD_OVERHEAD + 6 ≤ mirrored.channel.buffer.buffer.length ∧
      mirrored.channel.buffer.buffer.length ≤ 16640) ∧
    exchange.1.length < 2 ^ 64 ∧ ∀ e ∈ exchange.1.filterMap Event.right?, Transfers e.call := by
  decide +kernel

end Exchange

open Exchange in
theorem exchange_intact :
    received (exchange.1.filterMap Event.right?) = [.appData [7, 8]] ∧
    taken (exchange.1.filterMap Event.left?) = [1, 2] ∧
    ((∀ value ∈ received (exchange.1.filterMap Event.right?), ∃ bytes, value = .appData bytes) ∧
      ((received (exchange.1.filterMap Event.right?)).map AppDataOrAlert.payload).flatten <+:
        written (exchange.1.filterMap Event.left?)) ∧
    taken (exchange.1.filterMap Event.left?) <+: Server.posted (exchange.1.filterMap Event.right?) := by
  obtain ⟨hupward, hdownward, hstate⟩ := exchange_keys
  obtain ⟨hzero, hempty, hplan, hlength, hcount, hcalls⟩ := exchange_ready
  have haccepts : ∀ outcome ∈ mirrored.channel.outgoing.plan, outcome = .done := by
    rw [hplan]
    exact List.forall_mem_nil _
  obtain ⟨-, hclient, -, hserver⟩ := exchange_unforgeable
  rw [← exchange_logs.1, ← hstate] at hclient
  rw [← exchange_logs.2] at hserver
  exact ⟨by decide +kernel, by decide +kernel,
    duplex_integrity (Primitives.checksumming_aeadCorrect Client.Peer.cs) mirrored_fresh haccepts
      hlength hempty hupward hdownward hzero exchange_reaches hcalls hcount hclient hserver⟩

end GatoPskTls
