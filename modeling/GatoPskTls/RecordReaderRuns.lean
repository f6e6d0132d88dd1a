import GatoPskTls.Lib.History
import GatoPskTls.RecordReaderStream

/-!
# Reading on after a failure

Calls to the record reader, one after the other, on a transport that may fail between any two
bytes. The reader forgets a header it has read when the body does not come, so the records it
returns are the records of the stream only as long as no failure falls inside a record.
-/
namespace GatoPskTls

open Stateful Splice History

variable {cs : TlsCipherSuite}

theorem ServerRecord.decode_ne_panic {P : Primitives cs} {header : RecordHeader} {data t t' : Bytes}
    (hlen : data.length = header.contentLength) :
    decode P header data t ≠ .error .panic t' := by
  rw [decode_eq hlen]
  cases header.contentType with
  | invalid => nofun
  | changeCipherSpec => nofun
  | applicationData => nofun
  | alert =>
      cases hp : parsed Alert.parse data with
      | ok a => nofun
      | error e =>
          obtain ⟨_, _, -, rfl⟩ := parsed_eq_error.mp hp
          nofun
  | handshake =>
      cases hp : parsed (ServerHandshake.read P t) data with
      | ok a => nofun
      | error e =>
          obtain ⟨_, _, -, rfl⟩ := parsed_eq_error.mp hp
          nofun

namespace Incoming

/-- All the bytes that arrive, whatever happens in between. -/
def stream : Incoming → Bytes
  | [] => []
  | .chunk bytes :: rest => bytes ++ stream rest
  | _ :: rest => stream rest

theorem stream_length (t : Incoming) : t.stream.length = t.size := by
  induction t with
  | nil => rfl
  | cons arrival t ih =>
      cases arrival with
      | chunk bytes => rw [stream, size, List.length_append, ih]
      | failure kind => exact ih
      | dropped => exact ih

theorem Offers.stream {t t' : Incoming} {w : Bytes} (h : Offers t w t') :
    t.stream = w ++ t'.stream := by
  induction h with
  | none => rfl
  | part hb => rw [Incoming.stream, Incoming.stream, List.append_assoc]
  | all ha hw ih => rw [Incoming.stream, ih, List.append_assoc]

theorem Offers.trans {t t₁ t' : Incoming} {u v : Bytes} (h : Offers t u t₁) (h' : Offers t₁ v t') :
    Offers t (u ++ v) t' := by
  induction h with
  | none => exact h'
  | @part a b t hb =>
      cases h' with
      | none =>
          rw [List.append_nil]
          exact .part hb
      | part hc =>
          rw [← List.append_assoc]
          exact .part hc
      | all hb' hw =>
          rw [← List.append_assoc]
          exact .all (by simp [hb']) hw
  | all ha hw ih =>
      rw [List.append_assoc]
      exact .all ha (ih h')

theorem Offers.of_read {n : Nat} {t t' : Incoming} {u : Bytes} (h : Incoming.read n t = .ok u t')
    (hu : u ≠ []) : Offers t u t' := by
  cases t with
  | nil =>
      cases h
      exact absurd rfl hu
  | cons arrival t =>
      cases arrival with
      | failure kind => cases h
      | dropped => cases h
      | chunk bytes =>
          simp only [Incoming.read] at h
          split at h
          · cases h
            simpa using Offers.all hu (.none t')
          next hlong =>
            cases h
            have hrest : bytes.drop n ≠ [] := List.ne_nil_of_length_pos (by
              rw [List.length_drop]
              omega)
            have hpart := @Offers.part (bytes.take n) (bytes.drop n) t hrest
            rwa [List.take_append_drop] at hpart

/-- Nothing arrives before the next failure. -/
def Quiet : Incoming → Prop
  | .chunk bytes :: _ => bytes = []
  | _ => True

theorem read_quiet {t : Incoming} (h : t.Quiet) (n : Nat) :
    Ends (Incoming.read n t) (fun u t' => u = [] ∧ t'.stream = t.stream)
      fun e t' => e ≠ .panic ∧ t'.stream = t.stream := by
  cases t with
  | nil => exact ⟨rfl, rfl⟩
  | cons arrival t =>
      cases arrival with
      | failure kind => exact ⟨nofun, rfl⟩
      | dropped => exact ⟨nofun, rfl⟩
      | chunk bytes =>
          obtain rfl : bytes = [] := h
          simp only [Incoming.read, List.length_nil, Nat.zero_le, if_true]
          exact ⟨rfl, rfl⟩

theorem read_not_quiet {t : Incoming} (h : ¬t.Quiet) {n : Nat} (hn : 0 < n) :
    ∃ u t', Incoming.read n t = .ok u t' ∧ u ≠ [] := by
  cases t with
  | nil => exact absurd trivial h
  | cons arrival t =>
      cases arrival with
      | failure kind => exact absurd trivial h
      | dropped => exact absurd trivial h
      | chunk bytes =>
          simp only [Incoming.read]
          split
          · exact ⟨bytes, t, rfl, h⟩
          · refine ⟨bytes.take n, _, rfl, List.ne_nil_of_length_pos ?_⟩
            rw [List.length_take]
            omega

theorem read_size_le (n : Nat) :
    Keeps (fun t t' : Incoming => t'.size ≤ t.size) (Incoming.read n) := by
  intro t
  cases t with
  | nil => exact Nat.le_refl _
  | cons arrival t =>
      cases arrival with
      | failure kind => exact Nat.le_refl _
      | dropped => exact Nat.le_refl _
      | chunk bytes =>
          simp only [Incoming.read]
          split
          · simp [size]
          · simp only [after_ok, size, List.length_drop]
            omega

end Incoming

open Incoming (Offers Quiet)

theorem fillHeader_eq_ok {n : Nat} {buf buf' : Bytes} {t t' : Incoming}
    (h : fillHeader n buf t = .ok buf' t') : ∃ w, buf' = buf ++ w ∧ Offers t w t' := by
  induction n generalizing buf t with
  | zero =>
      cases h
      exact ⟨[], by simp, .none _⟩
  | succ n ih =>
      simp only [fillHeader] at h
      split at h
      · cases h
        exact ⟨[], by simp, .none _⟩
      obtain ⟨u, t₁, hread, h⟩ := bind_eq_ok.mp h
      split at h
      · cases h
      next hu =>
        obtain ⟨w, rfl, hw⟩ := ih h
        refine ⟨u ++ w, by rw [List.append_assoc], .trans (.of_read hread ?_) hw⟩
        simpa using hu

theorem RecordHeader.decode_eq_ok {header : GenericArray 5} {h : RecordHeader}
    (hd : decode header = .ok h) : h.header = header := by
  simp only [decode] at hd
  split at hd
  · cases hd
  · cases hd
    rfl

theorem nextRecordHeader_eq_ok {t t' : Incoming} {header : RecordHeader}
    (h : nextRecordHeader t = .ok header t') : Offers t header.header.val t' := by
  simp only [nextRecordHeader] at h
  obtain ⟨buf, t₁, hfill, h⟩ := bind_eq_ok.mp h
  obtain ⟨w, rfl, hw⟩ := fillHeader_eq_ok hfill
  split at h
  · obtain ⟨hdecode, rfl⟩ := fromResult_eq_ok.mp h
    rw [RecordHeader.decode_eq_ok (mapError_eq_ok_iff.mp hdecode)]
    exact hw
  · cases h

theorem fillHeader_size_le (n : Nat) (buf : Bytes) :
    Keeps (Shrinks Incoming.size) (fillHeader n buf) := by
  induction n generalizing buf with
  | zero => exact .pure _
  | succ n ih =>
      simp only [fillHeader]
      split
      · exact .pure _
      · refine .bind (Incoming.read_size_le _) fun u => ?_
        split
        · exact .throw _
        · exact ih _

theorem nextRecordHeader_of_quiet {t : Incoming} (h : t.Quiet) :
    ∃ e t', nextRecordHeader t = .error e t' ∧ e ≠ .panic ∧ t'.stream = t.stream := by
  have hread := Incoming.read_quiet h RecordHeader.LEN
  cases hr : Incoming.read RecordHeader.LEN t with
  | error e t' =>
      obtain ⟨he, hstream⟩ := hread.error hr
      exact ⟨e, t', bind_of_error (bind_of_error hr), he, hstream⟩
  | ok u t' =>
      obtain ⟨rfl, hstream⟩ := hread.ok hr
      refine ⟨.err .ioError, t', bind_of_error ?_, nofun, hstream⟩
      exact (bind_of_ok hr).trans rfl

/-- Where bytes arrive, some of them are gone after a header was asked for. -/
theorem nextRecordHeader_of_not_quiet {t : Incoming} (h : ¬t.Quiet) :
    (after (nextRecordHeader t)).size < t.size := by
  obtain ⟨u, t₁, hread, hu⟩ := @Incoming.read_not_quiet t h RecordHeader.LEN (by decide)
  have hless : t₁.size < t.size := by
    have := congrArg List.length (Offers.of_read hread hu).stream
    rw [List.length_append, Incoming.stream_length, Incoming.stream_length] at this
    have := List.length_pos_of_ne_nil hu
    omega
  have hstep : fillHeader RecordHeader.LEN [] t = fillHeader 4 u t₁ := by
    have hsome : u.isEmpty = false := List.isEmpty_eq_false_iff.mpr hu
    refine (bind_of_ok hread).trans ?_
    rw [hsome]
    rfl
  have hle := fillHeader_size_le 4 u t₁
  refine Nat.lt_of_le_of_lt (Nat.le_trans ?_ hle) hless
  cases hfill : fillHeader 4 u t₁ with
  | error e t' =>
      rw [nextRecordHeader, bind_of_error (hstep.trans hfill)]
      exact Nat.le_refl _
  | ok buf t' =>
      rw [nextRecordHeader, bind_of_ok (hstep.trans hfill)]
      split
      · cases RecordHeader.decode _ <;> exact Nat.le_refl _
      · exact Nat.le_refl _

namespace RecordReader

/-- The bytes of a body were offered, and stand behind the pending ones. -/
theorem fillPending_eq_ok {amount n remain : Nat} {i i' : Intake}
    (hamount : i.reader.pending + remain = amount) (hn : remain ≤ n)
    (h : fillPending amount n remain i = .ok () i') :
    ∃ w, w.length = remain ∧ i'.reader = i.reader.filled w ∧
      Offers i.transport w i'.transport := by
  induction n generalizing i remain with
  | zero =>
      cases h
      exact ⟨[], by simp; omega, by simp [filled], .none _⟩
  | succ n ih =>
      simp only [fillPending, get_bind_apply] at h
      split at h
      swap
      · cases h
        exact ⟨[], by simp; omega, by simp [filled], .none _⟩
      split at h
      · cases h
      next hroom =>
        obtain ⟨u, i₁, hread, h⟩ := bind_eq_ok.mp h
        obtain ⟨t₁, hgot, rfl⟩ := onPart_eq_ok.mp hread
        split at h
        · cases h
        next hu =>
          have hule := ((Incoming.read_ends remain i.transport).ok hgot).1
          have hne : u ≠ [] := by simpa using hu
          have hupos := List.length_pos_of_ne_nil hne
          rw [bind_of_ok (show onReader _ _ = .ok () ⟨i.reader.filled u, t₁⟩ from rfl)] at h
          obtain ⟨w, hlen, hreader, hoffers⟩ := @ih (remain - u.length) ⟨i.reader.filled u, t₁⟩
            (by simp only [filled]; omega) (by omega) h
          refine ⟨u ++ w, by rw [List.length_append]; omega, ?_, (Offers.of_read hgot hne).trans hoffers⟩
          rw [hreader, filled_append (by omega)]

theorem fillPending_size_le (amount n remain : Nat) :
    Keeps (Shrinks fun i : Intake => i.transport.size) (fillPending amount n remain) := by
  induction n generalizing remain with
  | zero => exact .pure _
  | succ n ih =>
      refine Keeps.get.bind fun i => ?_
      dsimp only
      split
      swap
      · exact .pure _
      split
      · exact .throw _
      refine .bind (.onPart (Incoming.read_size_le remain) fun _ _ h => h) fun u => ?_
      split
      · exact .throw _
      · refine .bind (.onPart (R := fun _ _ => True) (fun _ => trivial) fun _ _ _ => ?_) fun _ => ih _
        exact Nat.le_refl _

theorem advance_size_le (amount : Nat) :
    Keeps (Shrinks fun i : Intake => i.transport.size) (advance amount) := by
  refine .bind (.onPart (R := fun _ _ => True) (fun _ => trivial) fun _ _ _ => ?_)
    fun _ => fillPending_size_le amount amount amount
  exact Nat.le_refl _

/-- Nothing is pending, and nothing arrives: the call fails and changes nothing. -/
theorem fetch_of_quiet {i : Intake} (h : i.transport.Quiet) :
    ∃ e t', fetch i = .error e ⟨i.reader, t'⟩ ∧ e ≠ .panic ∧ t'.stream = i.transport.stream := by
  obtain ⟨e, t', hnext, he, hstream⟩ := nextRecordHeader_of_quiet h
  exact ⟨e, t', bind_of_error (onPart_of_error hnext), he, hstream⟩

/-- A record that was fetched was offered as a whole. -/
theorem fetch_eq_ok_offers {i i' : Intake} {f : Fetched} (hr : i.reader.Ready)
    (h : fetch i = .ok f i') :
    Offers i.transport (f.header.header.val ++ f.body) i'.transport ∧
      f.body.length ≤ i.reader.buf.length := by
  obtain ⟨header, i₁, hheader, h⟩ := bind_eq_ok.mp h
  obtain ⟨t₁, hnext, rfl⟩ := onPart_eq_ok.mp hheader
  obtain ⟨_, i₂, hadvance, h⟩ := bind_eq_ok.mp h
  obtain ⟨⟨start, body⟩, i₃, htake, h⟩ := bind_eq_ok.mp h
  cases h
  obtain ⟨_, i₄, hmove, hfill⟩ := bind_eq_ok.mp hadvance
  obtain ⟨r, hmoved, rfl⟩ := onPart_eq_ok.mp hmove
  have hfits := ((ensureContiguous_ends (show i.reader.Valid by
    rw [Valid, hr.pending]
    exact hr.decoded) header.contentLength).ok hmoved).1
  rw [ensureContiguous_of_ready hr hfits] at hmoved
  cases hmoved
  obtain ⟨w, hlen, hreader, hoffers⟩ := fillPending_eq_ok
    (by simp only [hr.pending]; omega) (Nat.le_refl _) hfill
  obtain ⟨r₃, htaken, rfl⟩ := onPart_eq_ok.mp htake
  have hstart := startFor_add_le hfits
  have htook := @takeBody_filled { i.reader with decoded := i.reader.startFor w.length } w
    hr.pending (by rw [hlen]; exact hstart)
  rw [hreader, ← hlen] at htaken
  cases htaken.symm.trans htook
  exact ⟨(nextRecordHeader_eq_ok hnext).trans hoffers, by rw [hlen]; exact hfits⟩

/-- A call that fails where bytes arrive has lost some of them. -/
theorem fetch_error_of_not_quiet {i i' : Intake} {e : Stop} (hquiet : ¬i.transport.Quiet)
    (h : fetch i = .error e i') : i'.transport.size < i.transport.size := by
  have hnext := nextRecordHeader_of_not_quiet hquiet
  rcases bind_eq_error.mp h with hheader | ⟨header, i₁, hheader, h⟩
  · obtain ⟨t, hfailed, rfl⟩ := onPart_eq_error.mp hheader
    rwa [hfailed] at hnext
  · obtain ⟨t, hread, rfl⟩ := onPart_eq_ok.mp hheader
    rw [hread] at hnext
    refine Nat.lt_of_le_of_lt ?_ hnext
    rcases bind_eq_error.mp h with hadvance | ⟨_, i₂, hadvance, h⟩
    · exact (advance_size_le _).error hadvance
    · have hle := (advance_size_le _).ok hadvance
      rcases bind_eq_error.mp h with htake | ⟨taken, i₃, htake, h⟩
      · obtain ⟨r, -, rfl⟩ := onPart_eq_error.mp htake
        exact hle
      · cases h

/-- One call to `read`, with the key schedule it is given. -/
def call (P : Primitives cs) (i : Intake) (schedule : ReadKeySchedule cs) :
    Except Stop (Nat × ServerRecord cs) × Intake :=
  (outcome (Inbound.read P ⟨i, schedule⟩), (after (Inbound.read P ⟨i, schedule⟩)).intake)

abbrev CallEvent (cs : TlsCipherSuite) :=
  Event Intake (ReadKeySchedule cs) (Except Stop (Nat × ServerRecord cs))

/-- The header and the body a call decodes. -/
def took (i : Intake) : Option (RecordHeader × Bytes) :=
  match fetch i with
  | .ok f _ => some (f.header, f.body)
  | .error _ _ => none

/-- What has been decoded, in the order of the calls. -/
def taken (h : List (CallEvent cs)) : List (RecordHeader × Bytes) :=
  h.reverse.filterMap fun e => took e.pre

/-- A record as it stands in the stream. -/
def wire (record : RecordHeader × Bytes) : Bytes := record.1.header.val ++ record.2

/-- The transport has nothing to give before it fails again, or it gives a whole record that
the buffer can hold. -/
def Unbroken (i : Intake) : Prop :=
  i.transport.Quiet ∨ ∃ header body t', Offers i.transport (wire (header, body)) t' ∧
    body.length = header.contentLength ∧ body.length ≤ i.reader.buf.length

/-- What holds after some calls: the cursors lie inside the buffer, no call has left it, and the
records that were returned are the records at the front of the stream. -/
structure Sound (P : Primitives cs) (buf : Bytes) (t : Incoming) (h : List (CallEvent cs))
    (i : Intake) : Prop where
  length : i.reader.buf.length = buf.length
  inside : i.reader.decoded + i.reader.pending ≤ i.reader.buf.length
  noPanic : ∀ e ∈ h, e.out ≠ .error .panic
  returned : ∀ e ∈ h, ∀ start record, e.out = .ok (start, record) →
    ∃ header body transcript, took e.pre = some (header, body) ∧
      ServerRecord.Decodes P header body e.call.transcriptHash record transcript
  consecutive : t.stream = (taken h).flatMap wire ++ i.transport.stream

section Call

variable {P : Primitives cs} {i i' : Intake} {schedule : ReadKeySchedule cs}

theorem call_of_fetch_error {e : Stop} (h : fetch i = .error e i') :
    call P i schedule = (.error e, i') := by
  have hread : Inbound.read P ⟨i, schedule⟩ = .error e ⟨i', schedule⟩ :=
    Inbound.read_of_fetch_error (i := ⟨i, schedule⟩) h
  rw [call, hread]
  rfl

theorem call_of_fetch {f : Fetched} (h : fetch i = .ok f i') :
    (call P i schedule).2 = i' ∧ (call P i schedule).1 ≠ .error .panic := by
  have hread := Inbound.read_of_fetch (P := P) (i := ⟨i, schedule⟩) h
  rw [call, hread]
  cases hdecode : ServerRecord.decode P f.header f.body schedule.transcriptHash with
  | ok record t => exact ⟨rfl, nofun⟩
  | error e t =>
      refine ⟨rfl, fun hpanic => ?_⟩
      cases hpanic
      exact ServerRecord.decode_ne_panic (fetch_eq_ok h).1 hdecode

theorem call_returned {start : Nat} {record : ServerRecord cs}
    (h : (call P i schedule).1 = .ok (start, record)) :
    ∃ header body transcript, took i = some (header, body) ∧
      ServerRecord.Decodes P header body schedule.transcriptHash record transcript := by
  obtain ⟨f, i', transcript, hfetch, -, hdecodes, -⟩ := Inbound.read_eq_ok (outcome_eq_ok h)
  refine ⟨f.header, f.body, transcript, ?_, hdecodes⟩
  simp only at hfetch
  rw [took, hfetch]

theorem taken_cons (e : CallEvent cs) (h : List (CallEvent cs)) :
    taken (e :: h) = taken h ++ (took e.pre).toList := by
  rw [taken, List.reverse_cons, List.filterMap_append]
  cases htook : took e.pre <;> simp [taken, htook]

end Call

section Run

variable {P : Primitives cs} {buf : Bytes} {t : Incoming} {h : List (CallEvent cs)} {i : Intake}

theorem Sound.call {schedule : ReadKeySchedule cs} {i' : Intake} (hs : Sound P buf t h i)
    (hpost : (call P i schedule).2 = i') (hnoPanic : (call P i schedule).1 ≠ .error .panic)
    (hlength : i'.reader.buf.length = buf.length) (hinside : i'.reader.Valid)
    (hstream : i.transport.stream = (took i).toList.flatMap wire ++ i'.transport.stream) :
    Sound P buf t (⟨i, schedule, (RecordReader.call P i schedule).1⟩ :: h)
      (RecordReader.call P i schedule).2 where
  length := by rw [hpost, hlength]
  inside := by
    rw [hpost]
    exact hinside
  noPanic := List.forall_mem_cons.mpr ⟨hnoPanic, hs.noPanic⟩
  returned := List.forall_mem_cons.mpr ⟨fun _ _ hout => call_returned hout, hs.returned⟩
  consecutive := by
    rw [taken_cons, List.flatMap_append, List.append_assoc, hpost, ← hstream]
    exact hs.consecutive

/-- As long as no call is broken off inside a record, nothing is pending between two calls. -/
theorem sound_of_unbroken (hr : Reaches (call P) ⟨.new buf, t⟩ h i)
    (hsteps : ∀ e ∈ h, Unbroken e.pre) : i.reader.Ready ∧ Sound P buf t h i := by
  induction hr with
  | nil =>
      refine ⟨⟨rfl, Nat.zero_le _⟩, rfl, Nat.zero_le _, nofun, nofun, ?_⟩
      simp [taken]
  | @call h i schedule hr ih =>
      obtain ⟨hstep, hbefore⟩ := List.forall_mem_cons.mp hsteps
      obtain ⟨hready, hsound⟩ := ih hbefore
      rcases hstep with hquiet | ⟨header, body, t', hoffers, hlen, hfits⟩
      · obtain ⟨e, t', hfetch, he, hstream⟩ := fetch_of_quiet hquiet
        have hcall := @call_of_fetch_error _ P _ _ schedule _ hfetch
        have htook : took i = none := by rw [took, hfetch]
        have hpost : (call P i schedule).2 = ⟨i.reader, t'⟩ := by rw [hcall]
        refine ⟨by rw [hpost]; exact hready, hsound.call hpost ?_ hsound.length hsound.inside ?_⟩
        · rw [hcall]
          exact fun hpanic => he (Except.error.inj hpanic)
        · simp [htook, hstream]
      · obtain ⟨start, r', hfetch, hready', hbuf⟩ := fetch_offers hready hlen hfits hoffers
        obtain ⟨hpost, hnoPanic⟩ := @call_of_fetch _ P _ _ schedule _ hfetch
        have htook : took i = some (header, body) := by rw [took, hfetch]
        have hinside : r'.Valid := by
          rw [Valid, hready'.pending]
          exact hready'.decoded
        refine ⟨by rw [hpost]; exact hready',
          hsound.call hpost hnoPanic (hbuf.trans hsound.length) hinside ?_⟩
        simp [htook, hoffers.stream]

/-- A call that takes no more and no less than what it decodes is not broken off. -/
theorem unbroken_of_stream {schedule : ReadKeySchedule cs} (hready : i.reader.Ready)
    (hstream : i.transport.stream =
      (took i).toList.flatMap wire ++ (call P i schedule).2.transport.stream) : Unbroken i := by
  cases hfetch : fetch i with
  | ok f i' =>
      obtain ⟨hoffers, hfits⟩ := fetch_eq_ok_offers hready hfetch
      exact .inr ⟨f.header, f.body, i'.transport, hoffers, (fetch_eq_ok hfetch).1, hfits⟩
  | error e i' =>
      by_contra hbroken
      have hquiet : ¬i.transport.Quiet := fun hquiet => hbroken (.inl hquiet)
      have hless := fetch_error_of_not_quiet hquiet hfetch
      have htook : took i = none := by rw [took, hfetch]
      rw [htook, call_of_fetch_error hfetch] at hstream
      have hlen := congrArg List.length hstream
      simp only [Option.toList_none, List.flatMap_nil, List.nil_append,
        Incoming.stream_length] at hlen
      omega

/-- Every state of a run is sound exactly when no call of it is broken off inside a record. -/
theorem records_consecutive_iff (hr : Reaches (call P) ⟨.new buf, t⟩ h i) :
    (∀ older j, older <:+ h → Reaches (call P) ⟨.new buf, t⟩ older j → Sound P buf t older j) ↔
      ∀ e ∈ h, Unbroken e.pre := by
  constructor
  · intro hsound
    induction hr with
    | nil => nofun
    | @call h i schedule hr ih =>
        have hbefore := ih fun older j hsuffix hreach =>
          hsound older j (hsuffix.trans (List.suffix_cons _ _)) hreach
        refine List.forall_mem_cons.mpr ⟨?_, hbefore⟩
        obtain ⟨hready, hpre⟩ := sound_of_unbroken hr hbefore
        have hpost := (hsound _ _ List.suffix_rfl (.call schedule hr)).consecutive
        rw [hpre.consecutive, taken_cons, List.flatMap_append, List.append_assoc] at hpost
        exact unbroken_of_stream hready (List.append_cancel_left hpost)
  · intro hsteps older j hsuffix hreach
    exact (sound_of_unbroken hreach fun e he => hsteps e (hsuffix.subset he)).2

end Run

section Sample

/-- A record of eight bytes whose body is interrupted behind its first byte; what is left of it
reads like a record of `len` bytes. -/
def interrupted (len : UInt8) : Incoming :=
  [.chunk [23, 3, 3, 0, 8, 0xAA], .failure .other, .chunk [23, 3, 3, 0, len, 0xBB, 0xCC]]

/-- Two calls on a reader with a buffer of `size` bytes. -/
def twoCalls (size : Nat) (t : Incoming) : List (CallEvent .aes128GcmSha256) × Intake :=
  runAll (call (.checksumming .aes128GcmSha256)) ([], ⟨.new (List.replicate size 0), t⟩)
    [⟨.new, []⟩, ⟨.new, []⟩]

theorem twoCalls_reaches (size : Nat) (t : Incoming) :
    Reaches (call (.checksumming .aes128GcmSha256)) ⟨.new (List.replicate size 0), t⟩
      (twoCalls size t).1 (twoCalls size t).2 :=
  runAll_reaches .nil _

/-- Behind the failure the second call takes the middle of the record for a header: it returns a
record that is not in the stream or, with a small buffer, panics. -/
theorem interrupted_record_lost :
    let P := Primitives.checksumming .aes128GcmSha256
    (∃ h i, Reaches (call P) ⟨.new (List.replicate 64 0), interrupted 2⟩ h i ∧
      (taken h).map Prod.snd = [[0xAA, 0xBB]] ∧
      ¬Sound P (List.replicate 64 0) (interrupted 2) h i) ∧
    ∃ h i, Reaches (call P) ⟨.new (List.replicate 8 0), interrupted 8⟩ h i ∧
      h.map Event.out = [.error .panic, .error (.err (.io .other))] ∧
      ¬Sound P (List.replicate 8 0) (interrupted 8) h i := by
  intro P
  refine ⟨⟨_, _, twoCalls_reaches 64 (interrupted 2), ?_, fun hsound => ?_⟩,
    _, _, twoCalls_reaches 8 (interrupted 8), ?_, fun hsound => ?_⟩
  · decide +kernel
  · have := hsound.consecutive
    revert this
    decide +kernel
  · decide +kernel
  · have houts : (twoCalls 8 (interrupted 8)).1.map Event.out =
        [.error .panic, .error (.err (.io .other))] := by decide +kernel
    have hpanic : .error .panic ∈ (twoCalls 8 (interrupted 8)).1.map Event.out := by
      rw [houts]
      exact List.mem_cons_self
    obtain ⟨e, he, hout⟩ := List.mem_map.mp hpanic
    exact hsound.noPanic e he hout

/-- A failure between two records, and chunks that end inside one. -/
def paused : Incoming := [.failure .other, .chunk [23, 3, 3, 0, 2, 0xBB], .chunk [0xCC]]

theorem paused_records_sound :
    (∀ older j, older <:+ (twoCalls 64 paused).1 →
      Reaches (call (.checksumming .aes128GcmSha256)) ⟨.new (List.replicate 64 0), paused⟩ older j →
      Sound (.checksumming .aes128GcmSha256) (List.replicate 64 0) paused older j) ∧
    (taken (twoCalls 64 paused).1).map Prod.snd = [[0xBB, 0xCC]] := by
  refine ⟨(records_consecutive_iff (twoCalls_reaches 64 paused)).mpr ?_, by decide +kernel⟩
  let header : RecordHeader := ⟨⟨[23, 3, 3, 0, 2], rfl⟩, .applicationData, rfl⟩
  intro e he
  rcases List.mem_cons.mp he with rfl | he
  · refine .inr ⟨header, [0xBB, 0xCC], [], ?_, rfl, ?_⟩
    · exact @Offers.all [23, 3, 3, 0, 2, 0xBB] [0xCC] _ _ (by decide)
        (@Offers.all [0xCC] [] _ _ (by decide) (.none []))
    · decide +kernel
  · obtain rfl := List.mem_singleton.mp he
    exact .inl trivial

end Sample

end RecordReader

end GatoPskTls
