import GatoPskTls.Lib.Simulation
import GatoPskTls.RecordReaderStream

/-!
# Where the chunks end

Two transports that deliver the same bytes cut them in different places. The record reader makes
the same of both, whatever the bytes are: the same record, or the same error in the same state.
-/
namespace GatoPskTls

open Stateful Splice

open Incoming (Delivers)

namespace Incoming

/-- A read gets the front of what is to come, and nothing only when nothing is to come. -/
theorem Delivers.read {t : Incoming} {bytes : Bytes} (h : Delivers t bytes) {n : Nat} (hn : 0 < n) :
    bytes = [] ∧ Incoming.read n t = .ok [] [] ∨
      ∃ u rest t', bytes = u ++ rest ∧ u ≠ [] ∧ u.length ≤ n ∧ Incoming.read n t = .ok u t' ∧
        Delivers t' rest := by
  cases h with
  | closed => exact .inl ⟨rfl, rfl⟩
  | @chunk chunk rest t hne ht =>
      have hpos := List.length_pos_of_ne_nil hne
      by_cases hfits : chunk.length ≤ n
      · refine .inr ⟨chunk, rest, t, rfl, hne, hfits, ?_, ht⟩
        simp only [Incoming.read, if_pos hfits]
      · refine .inr ⟨chunk.take n, chunk.drop n ++ rest, .chunk (chunk.drop n) :: t, ?_, ?_, ?_, ?_, ?_⟩
        · rw [← List.append_assoc, List.take_append_drop]
        · exact List.ne_nil_of_length_pos (by rw [List.length_take]; omega)
        · rw [List.length_take]
          omega
        · simp only [Incoming.read, if_neg hfits]
        · exact .chunk (List.ne_nil_of_length_pos (by rw [List.length_drop]; omega)) ht

end Incoming

/-- A stream that ends inside a header. -/
theorem fillHeader_short {n : Nat} {buf bytes : Bytes} {t : Incoming} (h : Delivers t bytes)
    (hshort : buf.length + bytes.length < RecordHeader.LEN) (hn : bytes.length < n) :
    fillHeader n buf t = .error (.err .ioError) [] := by
  induction n generalizing buf bytes t with
  | zero => omega
  | succ n ih =>
      simp only [fillHeader, if_neg (show buf.length ≠ RecordHeader.LEN by omega)]
      obtain ⟨rfl, hread⟩ | ⟨u, rest, t', rfl, hu, -, hread, ht'⟩ :=
        h.read (show 0 < RecordHeader.LEN - buf.length by omega)
      · rw [bind_of_ok hread]
        rfl
      · have hpos := List.length_pos_of_ne_nil hu
        rw [List.length_append] at hshort hn
        rw [bind_of_ok hread, List.isEmpty_eq_false_iff.mpr hu]
        exact ih ht' (by rw [List.length_append]; omega) (by omega)

/-- What becomes of a header is decided by the bytes alone. -/
theorem nextRecordHeader_delivers (bytes : Bytes) : ∃ r rest, ∀ t, Delivers t bytes →
    ∃ t', nextRecordHeader t = fromResult r t' ∧ Delivers t' rest := by
  rcases Nat.lt_or_ge bytes.length RecordHeader.LEN with hshort | hlong
  · refine ⟨.error (.err .ioError), [], fun t ht => ⟨[], ?_, .closed⟩⟩
    have hfill := @fillHeader_short RecordHeader.LEN [] bytes t ht (by simpa using hshort) hshort
    exact bind_of_error hfill
  · have hlen : (bytes.take RecordHeader.LEN).length = 5 := List.length_take_of_le hlong
    refine ⟨(RecordHeader.decode ⟨bytes.take RecordHeader.LEN, hlen⟩).mapError .err,
      bytes.drop RecordHeader.LEN, fun t ht => ?_⟩
    rw [← List.take_append_drop RecordHeader.LEN bytes] at ht
    obtain ⟨t', hoffers, ht'⟩ := ht.offers
    obtain ⟨t₁, hfill, ht₁⟩ := @fillHeader_offers RecordHeader.LEN [] (bytes.take RecordHeader.LEN) []
      t t' (by rw [hlen]; rfl) (by rw [hlen]; exact le_refl _) (by rwa [List.append_nil])
    obtain rfl := ht₁.eq_of_nil
    refine ⟨t₁, ?_, ht'⟩
    simp only [nextRecordHeader]
    rw [bind_of_ok hfill]
    simp only [List.nil_append, dif_pos hlen]

namespace RecordReader

/-- A stream that ends inside a body: what there is of it stays in the buffer. -/
theorem fillPending_short {amount n remain : Nat} {i : Intake} {bytes : Bytes}
    (h : Delivers i.transport bytes) (hremain : i.reader.pending + remain = amount)
    (hroom : i.reader.decoded + i.reader.pending + remain ≤ i.reader.buf.length)
    (hshort : bytes.length < remain) (hn : bytes.length < n) :
    fillPending amount n remain i = .error (.err .ioError) ⟨i.reader.filled bytes, []⟩ := by
  induction n generalizing i remain bytes with
  | zero => omega
  | succ n ih =>
      simp only [fillPending, get_bind_apply, if_pos (show i.reader.pending < amount by omega),
        if_neg (show ¬i.reader.decoded + i.reader.pending + remain > i.reader.buf.length by omega)]
      obtain ⟨rfl, hread⟩ | ⟨u, rest, t', rfl, hu, hule, hread, ht'⟩ :=
        h.read (show 0 < remain by omega)
      · rw [bind_of_ok (show onTransport _ i = .ok [] { i with transport := [] } from
          onPart_of_ok hread)]
        simp [filled]
      · have hpos := List.length_pos_of_ne_nil hu
        rw [List.length_append] at hshort hn
        have hbuf : (i.reader.filled u).buf.length = i.reader.buf.length := splice_length (by omega)
        have hrest := @ih (remain - u.length) ⟨i.reader.filled u, t'⟩ rest ht'
          (by simp only [filled]; omega) (by rw [hbuf]; simp only [filled]; omega) (by omega) (by omega)
        rw [filled_append (by omega)] at hrest
        rw [bind_of_ok (show onTransport _ i = .ok u { i with transport := t' } from
          onPart_of_ok hread), List.isEmpty_eq_false_iff.mpr hu]
        simp only [Bool.false_eq_true, if_false]
        rw [bind_of_ok (show onReader _ _ = .ok () ⟨i.reader.filled u, t'⟩ from rfl)]
        exact hrest

/-- Between two records, the readers are the same and the same bytes are to come. Where a stream
has ended inside a record, all is the same. -/
inductive SameStream : Intake → Intake → Prop
  | same (i : Intake) : SameStream i i
  | recut {r : RecordReader} {t t' : Incoming} {bytes : Bytes} (pending : r.pending = 0)
      (delivers : Delivers t bytes) (delivers' : Delivers t' bytes) : SameStream ⟨r, t⟩ ⟨r, t'⟩

namespace SameStream

variable {i i' : Intake}

theorem reader (h : SameStream i i') : i'.reader = i.reader := by
  cases h <;> rfl

theorem size_eq (h : SameStream i i') : i'.size = i.size := by
  cases h with
  | same => rfl
  | recut _ ht ht' => rw [Intake.size, Intake.size, ht.size_eq, ht'.size_eq]

theorem withBuf (h : SameStream i i') (buf : Bytes) :
    SameStream { i with reader.buf := buf } { i' with reader.buf := buf } := by
  cases h with
  | same => exact .same _
  | recut hpending ht ht' => exact .recut hpending ht ht'

theorem alike_self {α : Type} (r : EStateM.Result Stop Intake α) : Alike SameStream r r := by
  cases r <;> exact ⟨rfl, .same _⟩

end SameStream

theorem simulates_header :
    Simulates SameStream (onTransport nextRecordHeader) (onTransport nextRecordHeader) := by
  intro i i' h
  cases h with
  | same => exact SameStream.alike_self _
  | @recut reader t t' bytes hpending ht ht' =>
      obtain ⟨r, rest, hheader⟩ := nextRecordHeader_delivers bytes
      obtain ⟨t₁, hrun, ht₁⟩ := hheader t ht
      obtain ⟨t₁', hrun', ht₁'⟩ := hheader t' ht'
      have hlift : ∀ {t t₁}, nextRecordHeader t = fromResult r t₁ →
          onTransport nextRecordHeader ⟨reader, t⟩ = fromResult r ⟨reader, t₁⟩ := by
        intro t t₁ hrun
        cases r with
        | ok header => exact onPart_of_ok hrun
        | error e => exact onPart_of_error hrun
      rw [hlift hrun, hlift hrun']
      exact Simulates.fromResult r _ _ (.recut hpending ht₁ ht₁')

/-- Where nothing is pending, making room keeps it so, and there is room afterwards. -/
theorem ensureContiguous_room {r : RecordReader} (hr : r.pending = 0) (len : Nat) :
    Ends (ensureContiguous len r) (fun _ r' => r'.pending = 0 ∧ r'.decoded + len ≤ r'.buf.length)
      (fun _ r' => r'.pending = 0) := by
  unfold ensureContiguous
  rw [get_bind_apply]
  split
  next =>
    split
    next => exact hr
    next hlen =>
      split
      next => exact hr
      next =>
        refine ⟨hr, ?_⟩
        simp only [hr, List.take_zero, splice_nil]
        omega
  next hroom => exact ⟨hr, by omega⟩

/-- Where nothing was pending, a body is decided by the bytes alone as well. -/
theorem body_delivers {r : RecordReader} (hr : r.pending = 0) (len : Nat) (bytes : Bytes) :
    ∃ result r' rest, (r'.pending = 0 ∨ rest = []) ∧
      ∀ t, Delivers t bytes → ∃ t', Delivers t' rest ∧
        (advance len >>= fun _ => onReader (takeBody len)) ⟨r, t⟩ = fromResult result ⟨r', t'⟩ := by
  have hroom := ensureContiguous_room hr len
  cases hmoved : ensureContiguous len r with
  | error e r' =>
      refine ⟨.error e, r', bytes, .inl (hroom.error hmoved), fun t ht => ⟨t, ht, ?_⟩⟩
      exact bind_of_error (bind_of_error (onPart_of_error hmoved))
  | ok a r' =>
      obtain ⟨hpending, hfits⟩ := hroom.ok hmoved
      have hroom' : r'.decoded + r'.pending + len ≤ r'.buf.length := by omega
      have hadvance : ∀ t, advance len ⟨r, t⟩ = fillPending len len len ⟨r', t⟩ := fun t =>
        bind_of_ok (onPart_of_ok hmoved)
      rcases Nat.lt_or_ge bytes.length len with hshort | hlong
      · -- the stream ends first: what there is of the body stays pending
        refine ⟨.error (.err .ioError), r'.filled bytes, [], .inr rfl, fun t ht => ⟨[], .closed, ?_⟩⟩
        have hfill := @fillPending_short len len len ⟨r', t⟩ bytes ht (by simp [hpending]) hroom'
          hshort hshort
        exact bind_of_error ((hadvance t).trans hfill)
      · have hlen : (bytes.take len).length = len := List.length_take_of_le hlong
        refine ⟨.ok (r'.decoded, bytes.take len),
          ⟨splice r'.buf r'.decoded (bytes.take len), r'.decoded + len, 0⟩, bytes.drop len, .inl rfl,
          fun t ht => ?_⟩
        rw [← List.take_append_drop len bytes] at ht
        obtain ⟨t', hoffers, ht'⟩ := ht.offers
        have hfill := @fillPending_offers len len ⟨r', t⟩ (bytes.take len) t' (by simp [hpending, hlen])
          (by omega) (by rwa [hlen]) hoffers
        have htake := @takeBody_filled r' (bytes.take len) hpending (by rwa [hlen])
        rw [hlen] at hfill htake
        refine ⟨t', ht', ?_⟩
        rw [bind_of_ok ((hadvance t).trans hfill)]
        exact onPart_of_ok htake

theorem simulates_body (len : Nat) :
    Simulates SameStream (advance len >>= fun _ => onReader (takeBody len))
      (advance len >>= fun _ => onReader (takeBody len)) := by
  intro i i' h
  cases h with
  | same => exact SameStream.alike_self _
  | @recut reader t t' bytes hpending ht ht' =>
      obtain ⟨result, r', rest, hleft, hbody⟩ := body_delivers hpending len bytes
      obtain ⟨t₁, ht₁, hrun⟩ := hbody t ht
      obtain ⟨t₁', ht₁', hrun'⟩ := hbody t' ht'
      rw [hrun, hrun']
      refine Simulates.fromResult result _ _ ?_
      rcases hleft with hpending' | rfl
      · exact .recut hpending' ht₁ ht₁'
      · rw [ht₁.eq_nil, ht₁'.eq_nil]
        exact .same _

/-- A fetch gets the same of two streams that are cut in different places. -/
theorem simulates_fetch : Simulates SameStream fetch fetch := by
  have hfetch : fetch = onTransport nextRecordHeader >>= fun header =>
      (advance header.contentLength >>= fun _ => onReader (takeBody header.contentLength)) >>=
        fun got => pure ⟨header, got.1, got.2⟩ := by
    simp only [fetch, bind_assoc]
  rw [hfetch]
  refine simulates_header.bind fun header => ?_
  exact (simulates_body header.contentLength).bind fun got => .pure _

end RecordReader

end GatoPskTls
