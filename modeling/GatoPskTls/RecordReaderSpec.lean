import GatoPskTls.Lib.Ends
import GatoPskTls.RecordReader

/-!
# What the record reader does

Fetching a record takes its header and its body from the bytes there are and leaves a reader
whose cursors lie inside its buffer. The one slice that can be out of range is that of a
transport read behind bytes an earlier, failed call has left.
-/
namespace GatoPskTls

open Stateful BigEndian Splice

namespace Incoming

theorem read_ends (n : Nat) (t : Incoming) :
    Ends (read n t) (fun bytes t' => bytes.length ≤ n ∧ t'.size + bytes.length = t.size)
      fun e _ => e ≠ .panic := by
  unfold read
  split
  · exact ⟨Nat.zero_le n, rfl⟩
  · exact nofun
  · exact nofun
  next bytes rest =>
    split
    next h => exact ⟨h, Nat.add_comm _ _⟩
    next h =>
      refine ⟨by simp, ?_⟩
      simp only [size, List.length_drop, List.length_take]
      omega

end Incoming

/-- As many turns as there are bytes missing fill the header. -/
theorem fillHeader_ends {n : Nat} {buf : Bytes} {t : Incoming} (hbuf : buf.length ≤ RecordHeader.LEN)
    (hn : RecordHeader.LEN ≤ buf.length + n) :
    Ends (fillHeader n buf t)
      (fun buf' t' => buf'.length = RecordHeader.LEN ∧ t'.size + RecordHeader.LEN = t.size + buf.length)
      fun e _ => e ≠ .panic := by
  induction n generalizing buf t with
  | zero =>
      have hlen : buf.length = RecordHeader.LEN := by omega
      exact ⟨hlen, by rw [hlen]⟩
  | succ n ih =>
      simp only [fillHeader]
      split
      next hlen => exact ⟨hlen, by rw [hlen]⟩
      next hlen =>
        refine .bind ((Incoming.read_ends _ t).mono ?_ fun _ _ h => h)
        rintro bytes t' ⟨hle, hsize⟩
        split
        · exact nofun
        next hne =>
          have hpos : 0 < bytes.length := List.length_pos_of_ne_nil (by simpa using hne)
          refine (@ih (buf ++ bytes) t' ?_ ?_).mono ?_ fun _ _ h => h
          · rw [List.length_append]
            omega
          · rw [List.length_append]
            omega
          · rintro buf' t'' ⟨hlen', hsize'⟩
            rw [List.length_append] at hsize'
            exact ⟨hlen', by omega⟩

theorem nextRecordHeader_ends (t : Incoming) :
    Ends (nextRecordHeader t) (fun _ t' => t'.size + RecordHeader.LEN = t.size)
      fun e _ => e ≠ .panic := by
  refine .bind ((fillHeader_ends (Nat.zero_le _) (by simp)).mono ?_ fun _ _ h => h)
  rintro buf t' ⟨hlen, hsize⟩
  split
  next h =>
    cases RecordHeader.decode ⟨buf, h⟩ with
    | ok header => exact hsize
    | error e => exact nofun
  next h => exact absurd hlen h

namespace RecordReader

/-- The cursors lie inside the buffer. -/
def Valid (r : RecordReader) : Prop := r.decoded + r.pending ≤ r.buf.length

/-- Where the body of the next record will stand. -/
def startFor (r : RecordReader) (len : Nat) : Nat :=
  if r.decoded + len > r.buf.length then 0 else r.decoded

/-- Left-over bytes push the transport read past the end of the buffer. -/
def Overruns (r : RecordReader) (len : Nat) : Prop :=
  len ≤ r.buf.length ∧ r.pending < len ∧ r.buf.length < r.startFor len + r.pending + len

instance (r : RecordReader) (len : Nat) : Decidable (r.Overruns len) :=
  inferInstanceAs (Decidable (len ≤ r.buf.length ∧ r.pending < len ∧
    r.buf.length < r.startFor len + r.pending + len))

theorem ensureContiguous_ends {r : RecordReader} (hr : r.Valid) (len : Nat) :
    Ends (ensureContiguous len r)
      (fun _ r' => len ≤ r.buf.length ∧ r'.decoded = r.startFor len ∧ r'.pending = r.pending ∧
        r'.buf.length = r.buf.length ∧ r'.Valid)
      fun e r' => r.buf.length < len ∧ e ≠ .panic ∧ r' = r := by
  simp only [Valid] at hr
  simp only [ensureContiguous, get_bind_apply, startFor]
  split
  · split
    next hlen => exact ⟨hlen, nofun, rfl⟩
    next hlen =>
      rw [if_neg (by omega)]
      have hmoved : ((r.buf.drop r.decoded).take r.pending).length = r.pending := by
        rw [List.length_take, List.length_drop]
        omega
      have hlength : (splice r.buf 0 ((r.buf.drop r.decoded).take r.pending)).length = r.buf.length :=
        splice_length (by omega)
      refine ⟨by omega, rfl, rfl, hlength, ?_⟩
      simp only [Valid, hlength]
      omega
  · exact ⟨by omega, rfl, rfl, rfl, hr⟩

/-- The reader after some bytes were read behind the pending ones. -/
def filled (r : RecordReader) (bytes : Bytes) : RecordReader :=
  { r with
    buf := splice r.buf (r.decoded + r.pending) bytes
    pending := r.pending + bytes.length }

/-- With room for what remains, filling never leaves the buffer. -/
theorem fillPending_ends {amount n remain : Nat} {i : Intake} (hn : amount ≤ i.reader.pending + n)
    (hroom : i.reader.pending < amount →
      i.reader.decoded + i.reader.pending + remain ≤ i.reader.buf.length)
    (hvalid : i.reader.Valid) :
    Ends (fillPending amount n remain i)
      (fun _ i' => amount ≤ i'.reader.pending ∧ i'.size = i.size ∧
        i'.reader.decoded = i.reader.decoded ∧ i'.reader.buf.length = i.reader.buf.length ∧
        i'.reader.Valid)
      fun e i' => e ≠ .panic ∧ i'.reader.buf.length = i.reader.buf.length ∧ i'.reader.Valid := by
  induction n generalizing remain i with
  | zero => exact ⟨by omega, rfl, rfl, rfl, hvalid⟩
  | succ n ih =>
      simp only [fillPending, get_bind_apply]
      split
      next hpending =>
        have hfits := hroom hpending
        rw [if_neg (by omega)]
        refine .bind (.onPart ((Incoming.read_ends remain i.transport).mono ?_ ?_))
        · rintro bytes t ⟨hle, hsize⟩
          split
          · exact ⟨nofun, rfl, hvalid⟩
          next hne =>
            have hpos : 0 < bytes.length := List.length_pos_of_ne_nil (by simpa using hne)
            have hlength : (splice i.reader.buf (i.reader.decoded + i.reader.pending) bytes).length =
                i.reader.buf.length := splice_length (by omega)
            rw [bind_of_ok (show onReader _ _ = .ok () ⟨i.reader.filled bytes, t⟩ from rfl)]
            refine (ih (i := ⟨i.reader.filled bytes, t⟩) ?_ ?_ ?_).mono ?_ ?_
            · simp only [filled]
              omega
            · intro _
              simp only [filled, hlength]
              omega
            · simp only [Valid, filled, hlength]
              omega
            · rintro _ i' ⟨hamount, hsame, hdecoded, hbuf, hvalid'⟩
              refine ⟨hamount, hsame.trans ?_, hdecoded, hbuf.trans hlength, hvalid'⟩
              simp only [Intake.size, filled]
              omega
            · rintro e i' ⟨he, hbuf, hvalid'⟩
              exact ⟨he, hbuf.trans hlength, hvalid'⟩
        · exact fun e _ he => ⟨he, rfl, hvalid⟩
      next hpending => exact ⟨by omega, rfl, rfl, rfl, hvalid⟩

theorem fillPending_of_overrun {amount n remain : Nat} {i : Intake} (hn : 0 < n)
    (hpending : i.reader.pending < amount)
    (hroom : i.reader.buf.length < i.reader.decoded + i.reader.pending + remain) :
    fillPending amount n remain i = .error .panic i := by
  obtain ⟨n, rfl⟩ := Nat.exists_eq_add_one_of_ne_zero (Nat.pos_iff_ne_zero.mp hn)
  simp only [fillPending, get_bind_apply, if_pos hpending, if_pos hroom, throw_apply]

/-- Advancing fails with a panic exactly when left-over bytes overrun the buffer. -/
theorem advance_ends {amount : Nat} {i : Intake} (hvalid : i.reader.Valid) :
    Ends (advance amount i)
      (fun _ i' => ¬i.reader.Overruns amount ∧ amount ≤ i'.reader.pending ∧ i'.size = i.size ∧
        i'.reader.decoded + amount ≤ i'.reader.buf.length ∧
        i'.reader.buf.length = i.reader.buf.length ∧ i'.reader.Valid)
      fun e i' => (e = .panic ↔ i.reader.Overruns amount) ∧
        i'.reader.buf.length = i.reader.buf.length ∧ i'.reader.Valid := by
  refine .bind (.onPart ((ensureContiguous_ends hvalid amount).mono ?_ ?_))
  · rintro _ r ⟨hamount, hdecoded, hpending, hbuf, hvalid'⟩
    have hstart : i.reader.startFor amount + amount ≤ i.reader.buf.length := by
      simp only [startFor]
      split <;> omega
    by_cases hover : i.reader.Overruns amount
    · have ⟨_, hless, hroom⟩ := hover
      rw [fillPending_of_overrun (by omega) (by simp only [hpending]; exact hless)
        (by simp only [hbuf, hdecoded, hpending]; omega)]
      exact ⟨⟨fun _ => hover, fun _ => rfl⟩, hbuf, hvalid'⟩
    · refine (fillPending_ends (i := { i with reader := r }) (by simp) ?_ hvalid').mono ?_ ?_
      · intro hless
        simp only [hpending] at hless
        simp only [hdecoded, hpending, hbuf]
        simp only [Overruns, not_and, Nat.not_lt] at hover
        exact hover hamount hless
      · rintro _ i' ⟨hfull, hsize, hdecoded', hbuf', hvalid''⟩
        refine ⟨hover, hfull, hsize.trans (by simp only [Intake.size, hpending]), ?_,
          hbuf'.trans hbuf, hvalid''⟩
        rw [hdecoded', hbuf', hdecoded, hbuf]
        exact hstart
      · rintro e i' ⟨he, hbuf', hvalid''⟩
        exact ⟨iff_of_false he hover, hbuf'.trans hbuf, hvalid''⟩
  · rintro e r ⟨hlong, he, rfl⟩
    refine ⟨iff_of_false he fun hover => ?_, rfl, hvalid⟩
    have := hover.1
    omega

theorem takeBody_ends {n : Nat} {r : RecordReader} (hbuf : r.decoded + n ≤ r.buf.length)
    (hpending : n ≤ r.pending) (hvalid : r.Valid) :
    Ends (takeBody n r)
      (fun taken r' => taken.2.length = n ∧ r'.pending + n = r.pending ∧
        r'.buf.length = r.buf.length ∧ r'.Valid)
      fun _ _ => False := by
  simp only [takeBody, get_bind_apply]
  rw [if_neg (by omega)]
  refine ⟨?_, Nat.sub_add_cancel hpending, rfl, ?_⟩
  · simp only [List.length_take, List.length_drop]
    omega
  · simp only [Valid] at *
    omega

/-- The next header asks for a body that overruns the buffer. -/
def OverrunsNext (i : Intake) : Prop :=
  ∃ header t, nextRecordHeader i.transport = .ok header t ∧ i.reader.Overruns header.contentLength

/-- A record is taken from the front of what there is; only an overrun panics. -/
theorem fetch_ends {i : Intake} (hvalid : i.reader.Valid) :
    Ends (fetch i)
      (fun f i' => ¬OverrunsNext i ∧ i'.size + (RecordHeader.LEN + f.body.length) = i.size ∧
        i'.reader.buf.length = i.reader.buf.length ∧ i'.reader.Valid)
      fun e i' => (e = .panic ↔ OverrunsNext i) ∧
        i'.reader.buf.length = i.reader.buf.length ∧ i'.reader.Valid := by
  have hheader := nextRecordHeader_ends i.transport
  cases hnext : nextRecordHeader i.transport with
  | error e t =>
      have hfail : fetch i = .error e { i with transport := t } :=
        bind_of_error (onPart_of_error hnext)
      rw [hfail]
      refine ⟨iff_of_false (hheader.error hnext) ?_, rfl, hvalid⟩
      rintro ⟨header, t', hok, -⟩
      cases hnext.symm.trans hok
  | ok header t =>
      have hsize := hheader.ok hnext
      have hover : OverrunsNext i ↔ i.reader.Overruns header.contentLength := by
        constructor
        · rintro ⟨header', t', hok, h⟩
          cases hnext.symm.trans hok
          exact h
        · exact fun h => ⟨header, t, hnext, h⟩
      simp only [hover]
      simp only [fetch]
      rw [bind_of_ok (show onTransport nextRecordHeader i = .ok header { i with transport := t } from
        onPart_of_ok hnext)]
      refine .bind ((advance_ends (i := { i with transport := t }) hvalid).mono ?_ fun _ _ h => h)
      rintro _ i₁ ⟨hnot, hfull, hsame, hdecoded, hbuf, hvalid₁⟩
      refine .bind (.onPart ((takeBody_ends hdecoded hfull hvalid₁).mono ?_ fun _ _ h => h.elim))
      rintro ⟨start, body⟩ r ⟨hlen, hpending, hbuf', hvalid₂⟩
      refine ⟨hnot, ?_, hbuf'.trans hbuf, hvalid₂⟩
      simp only [Intake.size] at *
      omega

end RecordReader

end GatoPskTls
