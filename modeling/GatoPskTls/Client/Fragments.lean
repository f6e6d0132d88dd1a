import GatoPskTls.Lib.Simulation
import GatoPskTls.Aead
import GatoPskTls.MessageWire
import GatoPskTls.Client.Received
import GatoPskTls.Client.Sending

/-!
# Messages and records

The server's messages may share a record or be spread over several. The client takes messages
that share a record one after the other, but it does not put together again what was spread, and
in a record that holds the Finished it takes whatever stands behind it.
-/
namespace GatoPskTls.Client

open Stateful BigEndian Splice ParseBuffer

variable {cs : TlsCipherSuite} {π : Type}

/-- Records that protect these contents as handshake messages, under ascending counters. -/
inductive Protects (P : Primitives cs) :
    KeyScheduleState cs → List Bytes → List RecordReader.Fetched → Prop
  | nil {s : KeyScheduleState cs} : Protects P s [] []
  | cons {s : KeyScheduleState cs} {f : RecordReader.Fetched} {plaintext content : Bytes}
      {contents : List Bytes} {records : List RecordReader.Fetched} :
      f.body.length = f.header.contentLength → CanCount s → Authentic P s f plaintext →
      Holds plaintext .handshake content →
      Protects P { s with counter := s.counter + 1 } contents records →
      Protects P s (content :: contents) (f :: records)

/-- The loop of `open` while it waits for the server's messages. -/
def verifyRecords (P : Primitives cs) (pr : CryptoProvider π) :
    List RecordReader.Fetched → Reading.M cs (Verifying π) Unit
  | [] => pure ()
  | f :: records => do
      if (← get).captured.state = .serverVerify then do
        received P (verifyRecord P pr) f
        verifyRecords P pr records
      else pure ()

/-- The same on what the records protect. -/
def verifyContents (P : Primitives cs) (pr : CryptoProvider π) :
    List Bytes → Reading.M cs (Verifying π) Unit
  | [] => pure ()
  | content :: contents => do
      if (← get).captured.state = .serverVerify then do
        deliverMessages P (verifyRecord P pr) content.length (.new content)
        verifyContents P pr contents
      else pure ()

/-- How a run ends, its transcript, and what the handshake has come to. The number of records is
not looked at. -/
def observed (res : EStateM.Result Stop (Reading cs (Verifying π)) Unit) :
    Except Stop Unit × Bytes × Verifying π :=
  (outcome res, (after res).schedule.transcriptHash, (after res).captured)

/-- A record breaks off inside a message the client comes to, or goes on behind the Finished that
ends its wait. -/
def Broken (P : Primitives cs) (pr : CryptoProvider π) :
    Nat → ParseBuffer → Reading cs (Verifying π) → Prop
  | 0, _, _ => False
  | n+1, buf, r => buf.remaining > 0 ∧ (r.captured.state ≠ .serverVerify ∨
      match Reading.readMessage P buf r with
      | .error _ _ => True
      | .ok (message, buf') r₁ =>
          match verifyRecord P pr (.handshake message) r₁ with
          | .ok () r₂ => Broken P pr n buf' r₂
          | .error _ _ => False)

/-- No record the client takes is broken. -/
def Intact (P : Primitives cs) (pr : CryptoProvider π) :
    List Bytes → Reading cs (Verifying π) → Prop
  | [], _ => True
  | content :: contents, r => r.captured.state = .serverVerify →
      ¬Broken P pr content.length (.new content) r ∧
        ∀ r', deliverMessages P (verifyRecord P pr) content.length (.new content) r = .ok () r' →
          Intact P pr contents r'

/-- The same but for keys and count. -/
structure SameView (r r' : Reading cs (Verifying π)) : Prop where
  captured : r.captured = r'.captured
  transcript : r.schedule.transcriptHash = r'.schedule.transcriptHash
  secret : r.schedule.state.trafficSecret = r'.schedule.state.trafficSecret

variable {P : Primitives cs} {pr : CryptoProvider π}

theorem simulates_onCaptured {α : Type} (x : EStateM Stop (Verifying π) α) :
    Simulates SameView (Reading.onCaptured x : Reading.M cs (Verifying π) α) (Reading.onCaptured x) :=
  .onPart (fun _ _ h => h.captured) fun _ _ _ h => ⟨rfl, h.transcript, h.secret⟩

theorem simulates_verifyRecord (record : ServerRecord cs) :
    Simulates SameView (verifyRecord P pr record) (verifyRecord P pr record) := by
  cases record with
  | changeCipherSpec => exact .pure _
  | alert alert => exact .throw _
  | applicationData data => exact .throw _
  | handshake message =>
      cases message with
      | serverHello hello => exact .throw _
      | newSessionTicket => exact .throw _
      | encryptedExtensions => exact .pure _
      | certificate certificate =>
          refine .get_bind fun r r' h => ?_
          rw [h.transcript]
          exact simulates_onCaptured _
      | certificateVerify verify => exact simulates_onCaptured _
      | certificateRequest request => exact simulates_onCaptured _
      | finished finished =>
          refine .get_bind fun r r' h => ?_
          have hverify : KeySchedule.verifyServerFinished P r.schedule finished =
              KeySchedule.verifyServerFinished P r'.schedule finished := by
            rw [KeySchedule.verifyServerFinished, h.secret, KeySchedule.verifyServerFinished]
          simp only [hverify, h.transcript]
          refine .bind (.fromResult _) fun verified => ?_
          split
          · exact simulates_onCaptured _
          · exact .throw _

theorem simulates_readMessage (buf : ParseBuffer) :
    Simulates SameView (Reading.readMessage P buf : Reading.M cs (Verifying π) _)
      (Reading.readMessage P buf) := by
  intro r r' h
  simp only [Reading.readMessage, h.transcript]
  cases ServerHandshake.read P r'.schedule.transcriptHash buf with
  | ok read buf' => exact ⟨rfl, h.captured, rfl, h.secret⟩
  | error e buf' => exact ⟨rfl, h⟩

theorem simulates_deliverMessages (n : Nat) (buf : ParseBuffer) :
    Simulates SameView (deliverMessages P (verifyRecord P pr) n buf)
      (deliverMessages P (verifyRecord P pr) n buf) := by
  induction n generalizing buf with
  | zero => exact .pure _
  | succ n ih =>
      simp only [deliverMessages]
      split
      · exact (simulates_readMessage buf).bind fun read =>
          (simulates_verifyRecord _).bind fun _ => ih read.2
      · exact .pure _

theorem Alike.observed_eq {res res' : EStateM.Result Stop (Reading cs (Verifying π)) Unit}
    (h : Alike SameView res res') : observed res = observed res' := by
  rw [observed, observed, h.outcome_eq, h.after.captured, h.after.transcript]

theorem received_protected {σ : Type} {cb : Callback cs σ} {f : RecordReader.Fetched}
    {r : Reading cs σ} {plaintext content : Bytes} (hlen : f.body.length = f.header.contentLength)
    (hauth : Authentic P r.schedule.state f plaintext) (hholds : Holds plaintext .handshake content) :
    received P cb f r = (deliverMessages P cb content.length (.new content) >>= fun _ =>
      Reading.onState KeyScheduleState.incrementCounter) r := by
  obtain ⟨hc, haead⟩ := hauth
  obtain ⟨n, hplain⟩ := hholds
  have hopen := openRecord_of_padded haead (show ContentType.handshake.toU8 ≠ 0 by decide) hplain
  rw [ContentType.of_toU8] at hopen
  have hslice : (⟨splice f.body 0 plaintext, 0, content.length⟩ : CryptoBuffer).asSlice = content := by
    rw [opened_content haead (by simp [hplain]), hplain, List.take_left]
  simp only [received, ServerRecord.decode_eq hlen, hc, decryptRecord, get_bind_apply, hopen,
    fromResult_ok_bind, deliver, hslice]

theorem verifyRecords_alike {s : KeyScheduleState cs} {contents : List Bytes}
    {records : List RecordReader.Fetched} (h : Protects P s contents records)
    {r r' : Reading cs (Verifying π)} (hr : r.schedule.state = s) (hview : SameView r r') :
    Alike SameView (verifyRecords P pr records r) (verifyContents P pr contents r') := by
  induction h generalizing r r' with
  | nil => exact ⟨rfl, hview⟩
  | @cons s f plaintext content contents records hlen hcount hauth hholds hrest ih =>
      simp only [verifyRecords, verifyContents, get_bind_apply, hview.captured]
      split
      next hstate =>
        have hsame : Alike SameView _ _ :=
          @simulates_deliverMessages _ _ P pr content.length (.new content) r r' hview
        have hkeys := (deliverMessages_transcribes (P := P) (keeps_verifyRecord P pr) content.length
          (.new content) r).keys
        have hreceived : received P (verifyRecord P pr) f r = _ :=
          received_protected hlen (hr ▸ hauth) hholds
        obtain ⟨_, r₁, r₁', hdeliver, hdeliver', hview₁⟩ | ⟨e, r₁, r₁', hdeliver, hdeliver', hview₁⟩ :=
          hsame.cases
        · rw [hdeliver] at hkeys
          have hstate₁ : r₁.schedule.state = s := hkeys.trans hr
          have hcounted : Reading.onState KeyScheduleState.incrementCounter r₁ = .ok () { r₁ with
              schedule.state := { s with counter := s.counter + 1 } } := by
            refine onPart_of_ok ?_
            rw [hstate₁, incrementCounter_eq, if_pos hcount]
          rw [bind_of_ok (hreceived.trans ((bind_of_ok hdeliver).trans hcounted)), bind_of_ok hdeliver']
          exact ih rfl ⟨hview₁.captured, hview₁.transcript, hstate₁ ▸ hview₁.secret⟩
        · rw [bind_of_error (hreceived.trans (bind_of_error hdeliver)), bind_of_error hdeliver']
          exact ⟨rfl, hview₁⟩
      next => exact ⟨rfl, hview⟩

/-- The bytes of one handshake message. -/
def IsMessage (cs : TlsCipherSuite) (bytes : Bytes) : Prop :=
  ∃ message, ServerHandshake.Encodes cs bytes message

instance (bytes : Bytes) : Decidable (IsMessage cs bytes) :=
  match h : (ServerHandshake.parse (.new bytes) : EStateM.Result _ _ (ServerHandshake cs)) with
  | .ok m b => decidable_of_iff (b.rest = []) (by simp [IsMessage, ServerHandshake.Encodes, h])
  | .error e b => .isFalse (by simp [IsMessage, ServerHandshake.Encodes, h])

/-- A message is put into the transcript and handed to the callback. -/
def accept (P : Primitives cs) (pr : CryptoProvider π) (bytes : Bytes) (message : ServerHandshake cs) :
    Reading.M cs (Verifying π) Unit := fun r =>
  verifyRecord P pr (.handshake (message.withHash (P.hash r.schedule.transcriptHash)))
    { r with schedule.transcriptHash := r.schedule.transcriptHash ++ bytes }

theorem readMessage_encoded {bytes rest : Bytes} {message : ServerHandshake cs}
    (h : ServerHandshake.Encodes cs bytes message) {buf : ParseBuffer}
    (hbuf : buf.rest = bytes ++ rest) (r : Reading cs (Verifying π)) :
    ∃ buf', Reading.readMessage P buf r =
        .ok (message.withHash (P.hash r.schedule.transcriptHash), buf')
          { r with schedule.transcriptHash := r.schedule.transcriptHash ++ bytes } ∧
      buf'.rest = rest := by
  obtain ⟨buf', hparse, hreads⟩ := h.parse_of_rest hbuf
  obtain ⟨message', digest, hread⟩ := ServerHandshake.read_of_parse (P := P)
    (d := r.schedule.transcriptHash) hparse
  obtain ⟨parsed, hparse', rfl⟩ := ServerHandshake.read_parse hread
  cases hparse.symm.trans hparse'
  obtain ⟨w, -, hw, rfl⟩ := ServerHandshake.read_eq_ok hread
  have hlen : w.length = bytes.length := by
    have := hw.pos_eq
    rw [hreads.pos_eq] at this
    omega
  obtain ⟨rfl, -⟩ := hw.unique hreads hlen
  refine ⟨buf', ?_, List.append_cancel_left (hreads.rest_eq.symm.trans hbuf)⟩
  simp only [Reading.readMessage, hread]

theorem readMessage_cut {bytes v : Bytes} (h : IsMessage cs bytes) {buf : ParseBuffer}
    (hbytes : bytes = buf.rest ++ v) (hv : v ≠ []) (r : Reading cs (Verifying π)) :
    ∃ e, Reading.readMessage P buf r = .error (.err e) r := by
  obtain ⟨message, hencodes⟩ := h
  obtain ⟨e, buf', hparse⟩ := hencodes.parse_of_cut hbytes hv
  have hread : ServerHandshake.read P r.schedule.transcriptHash buf = .error e buf' :=
    (bind_of_ok rfl).trans (bind_of_error hparse)
  exact ⟨e, by simp only [Reading.readMessage, hread]⟩

theorem deliverMessages_of_empty {σ : Type} {cb : Callback cs σ} {buf : ParseBuffer}
    (h : buf.rest = []) (n : Nat) (r : Reading cs σ) : deliverMessages P cb n buf r = .ok () r := by
  have hnone : ¬buf.remaining > 0 := by
    rw [← rest_length, h]
    exact Nat.lt_irrefl 0
  cases n with
  | zero => rfl
  | succ n =>
      simp only [deliverMessages, if_neg hnone]
      rfl

/-- A message is taken from the front of what is left of a record. -/
theorem deliverMessages_encoded {bytes rest : Bytes} {message : ServerHandshake cs}
    (h : ServerHandshake.Encodes cs bytes message) {n : Nat} {buf : ParseBuffer}
    (hbuf : buf.rest = bytes ++ rest) (r : Reading cs (Verifying π)) :
    ∃ buf', buf'.rest = rest ∧
      deliverMessages P (verifyRecord P pr) (n + 1) buf r =
        (accept P pr bytes message >>= fun _ => deliverMessages P (verifyRecord P pr) n buf') r ∧
      (r.captured.state = .serverVerify →
        (Broken P pr (n + 1) buf r ↔ ∃ r', accept P pr bytes message r = .ok () r' ∧
          Broken P pr n buf' r')) := by
  obtain ⟨buf', hread, hrest⟩ := readMessage_encoded (P := P) h hbuf r
  have hsome : buf.remaining > 0 := by
    have := h.length
    rw [← rest_length, hbuf, List.length_append]
    omega
  refine ⟨buf', hrest, ?_, fun hstate => ?_⟩
  · simp only [deliverMessages, if_pos hsome]
    rw [bind_of_ok hread]
    rfl
  · simp only [Broken, hsome, hread, hstate, accept, true_and, ne_eq, not_true_eq_false, false_or]
    cases verifyRecord P pr _ _ <;> simp

theorem deliverMessages_message {bytes : Bytes} {message : ServerHandshake cs}
    (h : ServerHandshake.Encodes cs bytes message) (r : Reading cs (Verifying π)) :
    deliverMessages P (verifyRecord P pr) bytes.length (.new bytes) r = accept P pr bytes message r := by
  obtain ⟨n, hn⟩ := Nat.exists_eq_add_one_of_ne_zero (n := bytes.length) (by have := h.length; omega)
  obtain ⟨buf', hrest, hdeliver, -⟩ := @deliverMessages_encoded _ _ P pr bytes [] message h n
    (.new bytes) (by simp) r
  rw [hn, hdeliver]
  cases hrun : accept P pr bytes message r with
  | ok u r' => rw [bind_of_ok hrun, deliverMessages_of_empty hrest]
  | error e r' => rw [bind_of_error hrun]

/-- The transcript has only grown. -/
def Grows (r r' : Reading cs (Verifying π)) : Prop :=
  ∃ w, r'.schedule.transcriptHash = r.schedule.transcriptHash ++ w

instance : Std.Refl (@Grows cs π) := ⟨fun _ => ⟨[], (List.append_nil _).symm⟩⟩

instance : IsTrans (Reading cs (Verifying π)) Grows where
  trans := by
    rintro r₁ r₂ r₃ ⟨u, hu⟩ ⟨v, hv⟩
    exact ⟨u ++ v, by rw [hv, hu, List.append_assoc]⟩

variable (P pr) in
theorem grows_deliverMessages (n : Nat) (buf : ParseBuffer) :
    Keeps Grows (deliverMessages P (verifyRecord P pr) n buf) := by
  intro r
  obtain ⟨w, -, hw⟩ := (deliverMessages_transcribes (P := P) (keeps_verifyRecord P pr) n buf r).transcript
  exact ⟨w, hw⟩

variable (P pr) in
theorem grows_verifyContents (contents : List Bytes) : Keeps Grows (verifyContents P pr contents) := by
  induction contents with
  | nil => exact .pure _
  | cons content contents ih =>
      refine Keeps.get.bind fun r => ?_
      split
      · exact (grows_deliverMessages P pr _ _).bind fun _ => ih
      · exact .pure _

theorem accept_transcript (bytes : Bytes) (message : ServerHandshake cs) (r : Reading cs (Verifying π)) :
    (after (accept P pr bytes message r)).schedule.transcriptHash =
      r.schedule.transcriptHash ++ bytes :=
  congrArg ReadKeySchedule.transcriptHash (keeps_verifyRecord P pr _ _)

/-- Whatever follows a message, its bytes stay in the transcript. -/
theorem accept_grows {bytes : Bytes} {message : ServerHandshake cs} {r : Reading cs (Verifying π)}
    {next : Reading.M cs (Verifying π) Unit} (hnext : Keeps Grows next) :
    ∃ w, (after ((accept P pr bytes message >>= fun _ => next) r)).schedule.transcriptHash =
      r.schedule.transcriptHash ++ bytes ++ w := by
  have htranscript := @accept_transcript _ _ P pr bytes message r
  cases hrun : accept P pr bytes message r with
  | error e r' =>
      rw [hrun] at htranscript
      rw [bind_of_error hrun]
      exact ⟨[], htranscript.trans (List.append_nil _).symm⟩
  | ok u r' =>
      rw [hrun] at htranscript
      rw [bind_of_ok hrun]
      obtain ⟨w, hw⟩ := hnext r'
      exact ⟨w, by rw [hw]; exact congrArg (· ++ w) htranscript⟩

theorem observed_ne_of_longer {res res' : EStateM.Result Stop (Reading cs (Verifying π)) Unit}
    (h : (after res).schedule.transcriptHash.length < (after res').schedule.transcriptHash.length) :
    observed res ≠ observed res' := by
  intro heq
  have := congrArg (·.2.1.length) heq
  simp only [observed] at this
  omega

section Walk

variable {r : Reading cs (Verifying π)}

theorem verifyContents_message {bytes : Bytes} {message : ServerHandshake cs}
    (h : ServerHandshake.Encodes cs bytes message) (hstate : r.captured.state = .serverVerify)
    (messages : List Bytes) : verifyContents P pr (bytes :: messages) r =
      (accept P pr bytes message >>= fun _ => verifyContents P pr messages) r := by
  simp only [verifyContents, get_bind_apply, if_pos hstate]
  exact bind_of_eq (deliverMessages_message h r) _

theorem verifyContents_of_done (hstate : r.captured.state ≠ .serverVerify) (contents : List Bytes) :
    verifyContents P pr contents r = .ok () r := by
  cases contents with
  | nil => rfl
  | cons content contents =>
      simp only [verifyContents, get_bind_apply, if_neg hstate]
      rfl

variable (P pr) in
/-- What a record does to a client that is to get these messages, the last bytes of them in the
records behind it. -/
inductive Walk (n : Nat) (buf : ParseBuffer) (r : Reading cs (Verifying π)) (messages : List Bytes)
    (behind : Bytes) : Prop
  | through {r' : Reading cs (Verifying π)} {left : List Bytes} : ¬Broken P pr n buf r →
      deliverMessages P (verifyRecord P pr) n buf r = .ok () r' → (∀ m ∈ left, IsMessage cs m) →
      behind = left.flatten → verifyContents P pr messages r = verifyContents P pr left r' →
      Walk n buf r messages behind
  | refused {e : Stop} {r' : Reading cs (Verifying π)} : ¬Broken P pr n buf r →
      deliverMessages P (verifyRecord P pr) n buf r = .error e r' →
      verifyContents P pr messages r = .error e r' → Walk n buf r messages behind
  | broken : Broken P pr n buf r → (∀ contents, observed
      ((deliverMessages P (verifyRecord P pr) n buf >>= fun _ => verifyContents P pr contents) r) ≠
        observed (verifyContents P pr messages r)) → Walk n buf r messages behind

theorem remaining_of_ne_nil {buf : ParseBuffer} (h : buf.rest ≠ []) : buf.remaining > 0 := by
  rw [← rest_length]
  exact List.length_pos_of_ne_nil h

theorem broken_of_done {n : Nat} {buf : ParseBuffer} (hstate : r.captured.state ≠ .serverVerify)
    (hn : buf.remaining ≤ n) (h : buf.rest ≠ []) : Broken P pr n buf r := by
  have hremaining := remaining_of_ne_nil h
  obtain ⟨n, rfl⟩ := Nat.exists_eq_add_one_of_ne_zero (n := n) (by omega)
  exact ⟨hremaining, .inl hstate⟩

theorem not_broken_of_empty {buf : ParseBuffer} (h : buf.rest = []) (n : Nat) :
    ¬Broken P pr n buf r := by
  have hnone : ¬buf.remaining > 0 := by
    rw [← rest_length, h]
    exact Nat.lt_irrefl 0
  cases n with
  | zero => exact id
  | succ n => exact fun hb => hnone hb.1

theorem observed_ok_ne {res : EStateM.Result Stop (Reading cs (Verifying π)) Unit} {e : Stop}
    {r' : Reading cs (Verifying π)} (h : res = .ok () r) : observed (.error e r') ≠ observed res := by
  subst h
  intro heq
  cases congrArg Prod.fst heq

/-- Behind the Finished that ends the wait, a record can only do harm. -/
theorem observed_of_goesOn {n : Nat} {buf : ParseBuffer} (hn : buf.remaining ≤ n)
    (hsome : buf.rest ≠ []) (contents : List Bytes) :
    observed ((deliverMessages P (verifyRecord P pr) n buf >>= fun _ =>
      verifyContents P pr contents) r) ≠ observed (.ok () r) := by
  have hremaining := remaining_of_ne_nil hsome
  obtain ⟨n, rfl⟩ := Nat.exists_eq_add_one_of_ne_zero (n := n) (by omega)
  simp only [deliverMessages, if_pos hremaining]
  cases hread : ServerHandshake.read P r.schedule.transcriptHash buf with
  | error e buf' =>
      have hfail : Reading.readMessage P buf r = .error (.err e) r := by
        simp only [Reading.readMessage, hread]
      rw [bind_of_error (bind_of_error hfail)]
      exact observed_ok_ne rfl
  | ok read buf' =>
      obtain ⟨message, digest⟩ := read
      obtain ⟨w, hw, -, rfl⟩ := ServerHandshake.read_eq_ok hread
      have hok : Reading.readMessage P buf r = .ok (message, buf')
          { r with schedule.transcriptHash := r.schedule.transcriptHash ++ w } := by
        simp only [Reading.readMessage, hread]
      have hkeeps : Keeps Grows (verifyRecord P pr (.handshake message)) := fun r' =>
        ⟨[], (congrArg ReadKeySchedule.transcriptHash (keeps_verifyRecord P pr _ r')).trans
          (List.append_nil _).symm⟩
      obtain ⟨w', hw'⟩ := ((hkeeps.bind fun _ => grows_deliverMessages P pr n buf').bind fun _ =>
        grows_verifyContents P pr contents)
          { r with schedule.transcriptHash := r.schedule.transcriptHash ++ w }
      refine (observed_ne_of_longer ?_).symm
      rw [bind_assoc, bind_of_ok hok, hw']
      simp only [after_ok, List.length_append]
      omega

/-- A whole message, and what a record does behind it. -/
theorem walk_message {bytes rest behind : Bytes} {message : ServerHandshake cs}
    (hencodes : ServerHandshake.Encodes cs bytes message) {messages : List Bytes}
    (hmessages : ∀ m ∈ messages, IsMessage cs m) {n : Nat} {buf : ParseBuffer}
    (hn : buf.remaining ≤ n + 1) (hbuf : buf.rest = bytes ++ rest)
    (hrest : rest ++ behind = messages.flatten) (hstate : r.captured.state = .serverVerify)
    (hwalk : ∀ (buf' : ParseBuffer) (r' : Reading cs (Verifying π)), buf'.rest = rest →
      buf'.remaining ≤ n → r'.captured.state = .serverVerify →
        Walk P pr n buf' r' messages behind) :
    Walk P pr (n + 1) buf r (bytes :: messages) behind := by
  obtain ⟨buf', hbuf', hdeliver, hbroken⟩ := @deliverMessages_encoded _ _ P pr _ _ _ hencodes n _ hbuf r
  have hbroken := hbroken hstate
  have hown := @verifyContents_message _ _ P pr r _ _ hencodes hstate messages
  have hn' : buf'.remaining ≤ n := by
    have := hencodes.length
    rw [← rest_length, hbuf, List.length_append] at hn
    rw [← rest_length, hbuf']
    omega
  cases hrun : accept P pr bytes message r with
  | error e r' =>
      refine .refused (fun hb => ?_) (hdeliver.trans (bind_of_error hrun))
        (hown.trans (bind_of_error hrun))
      obtain ⟨r'', hok, -⟩ := hbroken.mp hb
      cases hrun.symm.trans hok
  | ok u r' =>
      have hbroken' : Broken P pr (n + 1) buf r ↔ Broken P pr n buf' r' := by
        rw [hbroken]
        constructor
        · rintro ⟨r'', hok, hb⟩
          cases hrun.symm.trans hok
          exact hb
        · exact fun hb => ⟨r', hrun, hb⟩
      have hdeliver' := hdeliver.trans (bind_of_ok hrun)
      have hown' := hown.trans (bind_of_ok hrun)
      by_cases hwaits : r'.captured.state = .serverVerify
      · cases hwalk buf' r' hbuf' hn' hwaits with
        | through hb hok hleft hbehind hsame =>
            exact .through (hbroken'.not.mpr hb) (hdeliver'.trans hok) hleft hbehind
              (hown'.trans hsame)
        | refused hb hfail hsame =>
            exact .refused (hbroken'.not.mpr hb) (hdeliver'.trans hfail) (hown'.trans hsame)
        | broken hb hne =>
            refine .broken (hbroken'.mpr hb) fun contents => ?_
            rw [bind_of_eq (y := fun _ => deliverMessages P (verifyRecord P pr) n buf' r') hdeliver', hown']
            exact hne contents
      · have hdone := @verifyContents_of_done _ _ P pr r' hwaits messages
        by_cases hempty : rest = []
        · rw [hempty] at hbuf' hrest
          exact .through (hbroken'.not.mpr (not_broken_of_empty hbuf' n))
            (hdeliver'.trans (deliverMessages_of_empty hbuf' n r')) hmessages hrest hown'
        · refine .broken (hbroken'.mpr (broken_of_done hwaits hn' (hbuf' ▸ hempty))) fun contents => ?_
          rw [bind_of_eq (y := fun _ => deliverMessages P (verifyRecord P pr) n buf' r') hdeliver',
            hown', hdone]
          exact observed_of_goesOn hn' (hbuf' ▸ hempty) contents

theorem walk {messages : List Bytes} (hmessages : ∀ m ∈ messages, IsMessage cs m) {n : Nat}
    {buf : ParseBuffer} {behind : Bytes} (hn : buf.remaining ≤ n)
    (hrest : buf.rest ++ behind = messages.flatten) (hstate : r.captured.state = .serverVerify) :
    Walk P pr n buf r messages behind := by
  induction n generalizing buf r messages with
  | zero =>
      have hempty : buf.rest = [] := List.eq_nil_of_length_eq_zero (by rw [rest_length]; omega)
      rw [hempty] at hrest
      exact .through (not_broken_of_empty hempty 0) rfl hmessages hrest rfl
  | succ n ih =>
      by_cases hempty : buf.rest = []
      · rw [hempty] at hrest
        exact .through (not_broken_of_empty hempty _) (deliverMessages_of_empty hempty _ r) hmessages
          hrest rfl
      cases messages with
      | nil => exact absurd (List.append_eq_nil_iff.mp hrest).1 hempty
      | cons m messages =>
          rw [List.forall_mem_cons] at hmessages
          obtain ⟨⟨message, hencodes⟩, hmessages⟩ := hmessages
          rw [List.flatten_cons, List.append_eq_append_iff] at hrest
          rcases hrest with ⟨cut, hm, hbehind⟩ | ⟨rest, hbuf, hflatten⟩
          · by_cases hcut : cut = []
            · subst hcut
              rw [List.append_nil] at hm
              have hbuf : buf.rest = m ++ [] := by rw [hm, List.append_nil]
              refine walk_message hencodes hmessages hn hbuf
                hbehind hstate fun buf' r' hbuf' hn' hwaits => ?_
              exact ih hmessages hn' (by rw [hbuf', hbehind]; rfl) hwaits
            · obtain ⟨e, hfail⟩ := readMessage_cut (P := P) ⟨message, hencodes⟩ hm hcut r
              have hremaining := remaining_of_ne_nil hempty
              have hdeliver : deliverMessages P (verifyRecord P pr) (n + 1) buf r =
                  .error (.err e) r := by
                simp only [deliverMessages, if_pos hremaining]
                exact bind_of_error hfail
              refine .broken ⟨hremaining, .inr (by rw [hfail]; trivial)⟩ fun contents => ?_
              refine observed_ne_of_longer ?_
              obtain ⟨w, hw⟩ := @accept_grows _ _ P pr m message r _ (grows_verifyContents P pr messages)
              have := hencodes.length
              rw [bind_of_error hdeliver, verifyContents_message hencodes hstate, hw]
              simp only [after_error, List.length_append]
              omega
          · refine walk_message hencodes hmessages hn hbuf hflatten.symm hstate
              fun buf' r' hbuf' hn' hwaits => ?_
            exact ih hmessages hn' (by rw [hbuf', hflatten]) hwaits

end Walk

theorem flatten_eq_nil {messages : List Bytes} (h : ∀ m ∈ messages, IsMessage cs m)
    (hnil : messages.flatten = []) : messages = [] := by
  cases messages with
  | nil => rfl
  | cons m messages =>
      obtain ⟨message, hencodes⟩ := h m List.mem_cons_self
      have := hencodes.length
      rw [(List.append_eq_nil_iff.mp hnil).1] at this
      simp at this

theorem observed_verifyContents_iff {messages contents : List Bytes}
    (hmessages : ∀ m ∈ messages, IsMessage cs m) (hcut : contents.flatten = messages.flatten)
    (r : Reading cs (Verifying π)) :
    observed (verifyContents P pr contents r) = observed (verifyContents P pr messages r) ↔
      Intact P pr contents r := by
  induction contents generalizing messages r with
  | nil =>
      rw [flatten_eq_nil hmessages hcut.symm]
      exact iff_of_true rfl trivial
  | cons content contents ih =>
      by_cases hstate : r.captured.state = .serverVerify
      · have hwalk := @walk _ _ P pr r messages hmessages content.length (.new content)
          contents.flatten (by rw [← rest_length, new_rest]) (by rw [← hcut]; rfl) hstate
        simp only [verifyContents, get_bind_apply, if_pos hstate, Intact, forall_prop_of_true hstate]
        cases hwalk with
        | through hb hok hleft hbehind hsame =>
            rw [bind_of_ok hok, hsame, ih hleft hbehind]
            simp [hb, hok]
        | refused hb hfail hsame =>
            rw [bind_of_error hfail, hsame]
            simp [hb, hfail]
        | broken hb hne => exact iff_of_false (hne contents) fun h => h.1 hb
      · rw [verifyContents_of_done hstate, verifyContents_of_done hstate]
        exact iff_of_true rfl fun h => absurd h hstate

/-- However the server's messages are cut into protected records, the client comes to the same
state with the same transcript as when every message has a record of its own, exactly when no
record it takes is broken. -/
theorem record_boundaries_iff {messages contents : List Bytes}
    (hmessages : ∀ m ∈ messages, IsMessage cs m) (hcut : contents.flatten = messages.flatten)
    {r : Reading cs (Verifying π)} {own cut : List RecordReader.Fetched}
    (hown : Protects P r.schedule.state messages own)
    (hrecords : Protects P r.schedule.state contents cut) :
    observed (verifyRecords P pr cut r) = observed (verifyRecords P pr own r) ↔
      Intact P pr contents r := by
  have hview : SameView r r := ⟨rfl, rfl, rfl⟩
  rw [Alike.observed_eq (verifyRecords_alike hown rfl hview),
    Alike.observed_eq (verifyRecords_alike hrecords rfl hview)]
  exact observed_verifyContents_iff hmessages hcut r

namespace Peer

/-- A record that protects some handshake bytes, as it is fetched. -/
def shielded (s : KeyScheduleState Peer.cs) (content : Bytes) : RecordReader.Fetched :=
  let len := (content ++ [ContentType.handshake.toU8]).length + Peer.cs.tagSize
  ⟨protectedHeader len, 0, (suite.aeadSeal s.key (KeyScheduleState.nonce s.counter s.iv)
    (additionalData len) (content ++ [ContentType.handshake.toU8])).getD []⟩

def shieldAll (s : KeyScheduleState Peer.cs) : List Bytes → List RecordReader.Fetched
  | [] => []
  | content :: contents =>
      shielded s content :: shieldAll { s with counter := s.counter + 1 } contents

theorem shieldAll_protects {s : KeyScheduleState Peer.cs} {contents : List Bytes}
    (hcount : s.counter.toNat + contents.length < 2 ^ 64)
    (hshort : ∀ content ∈ contents, content.length + 1 + Peer.cs.tagSize < 256 ^ 2) :
    Protects suite s contents (shieldAll s contents) := by
  induction contents generalizing s with
  | nil => exact .nil
  | cons content contents ih =>
      rw [List.forall_mem_cons] at hshort
      rw [List.length_cons] at hcount
      have hcan : CanCount s := by
        rw [CanCount]
        omega
      obtain ⟨ciphertext, hseal⟩ := (Primitives.checksumming_aeadCorrect Peer.cs).seals s.key
        (KeyScheduleState.nonce s.counter s.iv)
        (additionalData ((content ++ [ContentType.handshake.toU8]).length + Peer.cs.tagSize))
        (content ++ [ContentType.handshake.toU8]) (by simp [additionalData])
        (by rw [List.length_append, List.length_singleton]; omega)
      have hsealed : suite.aeadSeal s.key _ _ _ = some ciphertext := hseal
      have hbody : (shielded s content).body = ciphertext := by
        simp only [shielded, hsealed, Option.getD_some]
      refine .cons ?_ hcan ⟨rfl, ?_⟩ ⟨0, rfl⟩ (ih ?_ hshort.2)
      · rw [hbody, suite.aeadSeal_length hsealed]
        exact (protectedHeader_contentLength (by simpa using hshort.1)).symm
      · rw [hbody]
        exact (Primitives.checksumming_aeadCorrect Peer.cs).opens hseal
      · rw [show ({ s with counter := s.counter + 1 } : KeyScheduleState Peer.cs).counter.toNat =
          s.counter.toNat + 1 from canCount_next hcan]
        omega

/-- A client that waits for the server's messages. -/
def waiting : Reading Peer.cs (Verifying Unit) := (opening []).reading

def messages : List Bytes := [encryptedExtensions, finished installed encryptedExtensions]

/-- The first message is spread over two records. -/
def spread : List Bytes := [encryptedExtensions.take 5, encryptedExtensions.drop 5,
  finished installed encryptedExtensions]

def verified (contents : List Bytes) :
    EStateM.Result Stop (Reading Peer.cs (Verifying Unit)) Unit :=
  verifyRecords suite (provider true) (shieldAll waiting.schedule.state contents) waiting

theorem messages_wellFormed : (∀ m ∈ messages, IsMessage Peer.cs m) ∧
    spread.flatten = messages.flatten ∧ [messages.flatten].flatten = messages.flatten := by
  decide +kernel

theorem waiting_protects {contents : List Bytes} (hfew : contents.length < 2 ^ 64)
    (hshort : ∀ content ∈ contents, content.length + 1 + Peer.cs.tagSize < 256 ^ 2) :
    Protects suite waiting.schedule.state contents (shieldAll waiting.schedule.state contents) :=
  shieldAll_protects (by
    rw [show waiting.schedule.state.counter = 0 by decide +kernel]
    simpa using hfew) hshort

theorem messages_verified : observed (verified [messages.flatten]) = observed (verified messages) ∧
    outcome (verified messages) = .ok () ∧
    (after (verified messages)).captured.state = .clientFinished := by
  decide +kernel

theorem spread_verified : outcome (verified spread) = .error (.err .invalidExtensionsLength) := by
  decide +kernel

end Peer

/-- Both messages in one record. -/
theorem shared_record_intact :
    observed (Peer.verified [Peer.messages.flatten]) = observed (Peer.verified Peer.messages) ∧
      Intact Peer.suite (Peer.provider true) [Peer.messages.flatten] Peer.waiting :=
  ⟨Peer.messages_verified.1, (record_boundaries_iff Peer.messages_wellFormed.1
    Peer.messages_wellFormed.2.2 (Peer.waiting_protects (by decide +kernel) (by decide +kernel))
    (Peer.waiting_protects (by decide +kernel) (by decide +kernel))).mp Peer.messages_verified.1⟩

/-- A message spread over two records ends the handshake. -/
theorem spread_message_refused :
    (∀ m ∈ Peer.messages, IsMessage Peer.cs m) ∧
      Peer.spread.flatten = Peer.messages.flatten ∧ (∀ content ∈ Peer.spread, content ≠ []) ∧
      Protects Peer.suite Peer.waiting.schedule.state Peer.spread
        (Peer.shieldAll Peer.waiting.schedule.state Peer.spread) ∧
      outcome (Peer.verified Peer.messages) = .ok () ∧
      (after (Peer.verified Peer.messages)).captured.state = .clientFinished ∧
      outcome (Peer.verified Peer.spread) = .error (.err .invalidExtensionsLength) :=
  ⟨Peer.messages_wellFormed.1, Peer.messages_wellFormed.2.1, by decide +kernel,
    Peer.waiting_protects (by decide +kernel) (by decide +kernel), Peer.messages_verified.2.1,
    Peer.messages_verified.2.2, Peer.spread_verified⟩

end GatoPskTls.Client
