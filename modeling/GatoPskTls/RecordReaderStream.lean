import GatoPskTls.RecordReaderSpec

/-!
# Reading records off a stream

When a transport delivers a stream in non-empty chunks, the record reader gets the records the
stream consists of, wherever the chunks end.
-/
namespace GatoPskTls

open Stateful BigEndian Splice

namespace Incoming

/-- The bytes arrive in non-empty chunks, then the peer closes. -/
inductive Delivers : Incoming → Bytes → Prop
  | closed : Delivers [] []
  | chunk {bytes rest : Bytes} {t : Incoming} : bytes ≠ [] → Delivers t rest →
      Delivers (.chunk bytes :: t) (bytes ++ rest)

theorem Delivers.eq_nil {t : Incoming} (h : Delivers t []) : t = [] := by
  generalize hbytes : ([] : Bytes) = bytes at h
  cases h with
  | closed => rfl
  | chunk hne ht => exact absurd (List.append_eq_nil_iff.mp hbytes.symm).1 hne

theorem Delivers.size_eq {t : Incoming} {bytes : Bytes} (h : Delivers t bytes) :
    t.size = bytes.length := by
  induction h with
  | closed => rfl
  | chunk hne ht ih => rw [size, ih, List.length_append]

/-- `w` arrives next, before the transport fails or closes, and leaves `t'`. -/
inductive Offers : Incoming → Bytes → Incoming → Prop
  | none (t : Incoming) : Offers t [] t
  | part {a b : Bytes} {t : Incoming} : b ≠ [] → Offers (.chunk (a ++ b) :: t) a (.chunk b :: t)
  | all {a w : Bytes} {t t' : Incoming} : a ≠ [] → Offers t w t' →
      Offers (.chunk a :: t) (a ++ w) t'

theorem Delivers.offers {t : Incoming} {w rest : Bytes} (h : Delivers t (w ++ rest)) :
    ∃ t', Offers t w t' ∧ Delivers t' rest := by
  generalize hbytes : w ++ rest = bytes at h
  induction h generalizing w with
  | closed =>
      obtain ⟨rfl, rfl⟩ := List.append_eq_nil_iff.mp hbytes
      exact ⟨[], .none _, .closed⟩
  | @chunk bytes more t hne ht ih =>
      rcases List.append_eq_append_iff.mp hbytes with ⟨b, rfl, rfl⟩ | ⟨w', rfl, hmore⟩
      · -- the wanted bytes end inside this chunk
        by_cases hb : b = []
        · subst hb
          rw [List.append_nil] at hne ⊢
          refine ⟨t, ?_, ht⟩
          simpa using Offers.all hne (.none t)
        · exact ⟨.chunk b :: t, .part hb, .chunk hb ht⟩
      · obtain ⟨t', hoffers, hrest⟩ := ih hmore.symm
        exact ⟨t', .all hne hoffers, hrest⟩

theorem Offers.eq_of_nil {t t' : Incoming} (h : Offers t [] t') : t = t' := by
  generalize hw : ([] : Bytes) = w at h
  cases h with
  | none => rfl
  | part hb =>
      subst hw
      rfl
  | all ha => exact absurd (List.append_eq_nil_iff.mp hw.symm).1 ha

/-- A read within the offer gets the next of its bytes, at least one. -/
theorem Offers.read {t t' : Incoming} {w : Bytes} (h : Offers t w t') {n : Nat} (hn : 0 < n)
    (hle : n ≤ w.length) :
    ∃ u v t₁, w = u ++ v ∧ u ≠ [] ∧ u.length ≤ n ∧ Incoming.read n t = .ok u t₁ ∧
      Offers t₁ v t' := by
  cases h with
  | none => exact absurd (Nat.lt_of_lt_of_le hn hle) (Nat.lt_irrefl _)
  | @part _ b t hb =>
      have hpos := List.length_pos_of_ne_nil hb
      refine ⟨w.take n, w.drop n, .chunk ((w ++ b).drop n) :: t, (List.take_append_drop n w).symm,
        List.ne_nil_of_length_pos (by rw [List.length_take]; omega),
        by rw [List.length_take]; omega, ?_, ?_⟩
      · simp only [Incoming.read]
        rw [if_neg (by rw [List.length_append]; omega), List.take_append_of_le_length hle]
      · rw [List.drop_append_of_le_length hle]
        exact .part hb
  | @all a w t t' ha hw =>
      have hpos := List.length_pos_of_ne_nil ha
      by_cases hfits : a.length ≤ n
      · refine ⟨a, w, t, rfl, ha, hfits, ?_, hw⟩
        simp only [Incoming.read, if_pos hfits]
      · refine ⟨a.take n, a.drop n ++ w, .chunk (a.drop n) :: t, ?_,
          List.ne_nil_of_length_pos (by rw [List.length_take]; omega),
          by rw [List.length_take]; omega, ?_, ?_⟩
        · rw [← List.append_assoc, List.take_append_drop]
        · simp only [Incoming.read, if_neg hfits]
        · exact .all (List.ne_nil_of_length_pos (by rw [List.length_drop]; omega)) hw

end Incoming

open Incoming (Delivers Offers)

theorem fillHeader_offers {n : Nat} {buf wanted rest : Bytes} {t t' : Incoming}
    (hlen : buf.length + wanted.length = RecordHeader.LEN) (hn : wanted.length ≤ n)
    (h : Offers t (wanted ++ rest) t') :
    ∃ t₁, fillHeader n buf t = .ok (buf ++ wanted) t₁ ∧ Offers t₁ rest t' := by
  induction n generalizing buf wanted t with
  | zero =>
      obtain rfl : wanted = [] := List.eq_nil_of_length_eq_zero (by omega)
      exact ⟨t, by simp [fillHeader], h⟩
  | succ n ih =>
      by_cases hnone : wanted.length = 0
      · obtain rfl : wanted = [] := List.eq_nil_of_length_eq_zero hnone
        exact ⟨t, by simp_all [fillHeader], h⟩
      have hmissing : buf.length ≠ RecordHeader.LEN := by omega
      obtain ⟨u, v, t₁, hsplit, hu, hule, hread, ht₁⟩ := h.read
        (show 0 < RecordHeader.LEN - buf.length by omega) (by rw [List.length_append]; omega)
      obtain ⟨w, rfl, rfl⟩ : ∃ w, wanted = u ++ w ∧ v = w ++ rest := by
        rcases List.append_eq_append_iff.mp hsplit with ⟨w, rfl, rfl⟩ | ⟨w, rfl, rfl⟩
        · obtain rfl : w = [] := List.eq_nil_of_length_eq_zero (by
            rw [List.length_append] at hule
            omega)
          exact ⟨[], by simp, by simp⟩
        · exact ⟨w, rfl, rfl⟩
      have hupos := List.length_pos_of_ne_nil hu
      rw [List.length_append] at hlen hn
      obtain ⟨t₂, hfill, ht₂⟩ := @ih (buf ++ u) w _ (by rw [List.length_append]; omega)
        (by omega) ht₁
      refine ⟨t₂, ?_, ht₂⟩
      rw [List.append_assoc] at hfill
      have hsome : u.isEmpty = false := List.isEmpty_eq_false_iff.mpr hu
      simp only [fillHeader, if_neg hmissing]
      rw [bind_of_ok hread, hsome]
      exact hfill

theorem RecordHeader.decode_header (h : RecordHeader) : decode h.header = .ok h := by
  simp only [decode]
  split
  next heq => cases heq.symm.trans h.known
  next contentType heq =>
    obtain ⟨header, contentType', hknown⟩ := h
    cases heq.symm.trans hknown
    rfl

theorem nextRecordHeader_offers {t t' : Incoming} {header : RecordHeader} {rest : Bytes}
    (h : Offers t (header.header.val ++ rest) t') :
    ∃ t₁, nextRecordHeader t = .ok header t₁ ∧ Offers t₁ rest t' := by
  have hlen : header.header.val.length = 5 := header.header.property
  obtain ⟨t₁, hfill, ht₁⟩ := @fillHeader_offers RecordHeader.LEN [] _ _ _ _ (by rw [hlen]; rfl)
    (by rw [hlen]; exact Nat.le_refl _) h
  refine ⟨t₁, ?_, ht₁⟩
  simp only [nextRecordHeader]
  rw [bind_of_ok hfill]
  simp [hlen, RecordHeader.decode_header]

theorem nextRecordHeader_closed : nextRecordHeader [] = .error (.err .ioError) [] := rfl

namespace RecordReader

theorem filled_append {r : RecordReader} {a b : Bytes} (h : r.decoded + r.pending ≤ r.buf.length) :
    (r.filled a).filled b = r.filled (a ++ b) := by
  simp only [filled, ← Nat.add_assoc, splice_splice h, List.length_append]

theorem fillPending_offers {amount n : Nat} {i : Intake} {wanted : Bytes} {t' : Incoming}
    (hamount : i.reader.pending + wanted.length = amount) (hn : wanted.length ≤ n)
    (hroom : i.reader.decoded + i.reader.pending + wanted.length ≤ i.reader.buf.length)
    (h : Offers i.transport wanted t') :
    fillPending amount n wanted.length i = .ok () ⟨i.reader.filled wanted, t'⟩ := by
  induction n generalizing i wanted with
  | zero =>
      obtain rfl : wanted = [] := List.eq_nil_of_length_eq_zero (by omega)
      simp [fillPending, filled, ← h.eq_of_nil]
  | succ n ih =>
      by_cases hnone : wanted.length = 0
      · obtain rfl : wanted = [] := List.eq_nil_of_length_eq_zero hnone
        have hfull : ¬i.reader.pending < amount := by omega
        simp [fillPending, filled, hfull, ← h.eq_of_nil]
      have hmissing : i.reader.pending < amount := by omega
      obtain ⟨u, v, t₁, rfl, hu, hule, hread, ht₁⟩ :=
        h.read (Nat.pos_of_ne_zero hnone) (Nat.le_refl _)
      have hupos := List.length_pos_of_ne_nil hu
      have hbuf : (i.reader.filled u).buf.length = i.reader.buf.length := splice_length (by
        rw [List.length_append] at hroom
        omega)
      have hfill := @ih ⟨i.reader.filled u, t₁⟩ v
        (by simp only [filled, ← hamount, List.length_append]; omega)
        (by rw [List.length_append] at hn; omega)
        (by rw [hbuf]; simp only [filled]; rw [List.length_append] at hroom; omega) ht₁
      have hsome : u.isEmpty = false := List.isEmpty_eq_false_iff.mpr hu
      have hleft : (u ++ v).length - u.length = v.length := by simp
      rw [filled_append (by omega)] at hfill
      simp only [fillPending, get_bind_apply, if_pos hmissing]
      rw [if_neg (by omega), bind_of_ok (show onTransport _ i = .ok u { i with transport := t₁ } from
        onPart_of_ok hread), hsome]
      simp only [Bool.false_eq_true, if_false]
      rw [bind_of_ok (show onReader _ _ = .ok () ⟨i.reader.filled u, t₁⟩ from rfl), hleft]
      exact hfill

/-- Nothing is pending between two records. -/
structure Ready (r : RecordReader) : Prop where
  pending : r.pending = 0
  decoded : r.decoded ≤ r.buf.length

theorem ensureContiguous_of_ready {r : RecordReader} (hr : r.Ready) {len : Nat}
    (hlen : len ≤ r.buf.length) :
    ensureContiguous len r = .ok () { r with decoded := r.startFor len } := by
  obtain ⟨buf, decoded, pending⟩ := r
  obtain rfl : pending = 0 := hr.pending
  have hdecoded : decoded ≤ buf.length := hr.decoded
  simp only [ensureContiguous, get_bind_apply, startFor]
  split
  next hover =>
    rw [if_neg (by simp only at hlen; omega), if_neg (by omega)]
    simp
  next => rfl

theorem startFor_add_le {r : RecordReader} {len : Nat} (hlen : len ≤ r.buf.length) :
    r.startFor len + len ≤ r.buf.length := by
  simp only [startFor]
  split <;> omega

/-- A body that was read where nothing was pending is taken. -/
theorem takeBody_filled {r : RecordReader} {body : Bytes} (hpending : r.pending = 0)
    (hroom : r.decoded + body.length ≤ r.buf.length) :
    takeBody body.length (r.filled body) =
      .ok (r.decoded, body) ⟨splice r.buf r.decoded body, r.decoded + body.length, 0⟩ := by
  have hbody : ((splice r.buf r.decoded body).drop r.decoded).take body.length = body := by
    rw [splice, List.append_assoc, List.drop_left' (by simp; omega), List.take_left]
  have hbuf : (splice r.buf r.decoded body).length = r.buf.length := splice_length hroom
  simp only [takeBody, filled, get_bind_apply, hpending, Nat.add_zero, Nat.zero_add, hbuf]
  rw [if_neg (by omega)]
  simp [hbody]

/-- A record the transport offers is fetched, wherever the chunks end. -/
theorem fetch_offers {i : Intake} {header : RecordHeader} {body : Bytes} {t' : Incoming}
    (hr : i.reader.Ready) (hlen : body.length = header.contentLength)
    (hfits : body.length ≤ i.reader.buf.length)
    (h : Offers i.transport (header.header.val ++ body) t') :
    ∃ start r', fetch i = .ok ⟨header, start, body⟩ ⟨r', t'⟩ ∧ r'.Ready ∧
      r'.buf.length = i.reader.buf.length := by
  obtain ⟨t₁, hheader, ht₁⟩ := nextRecordHeader_offers h
  have hstart := startFor_add_le hfits
  have hmoved : onReader (ensureContiguous body.length) { i with transport := t₁ } =
      .ok () ⟨{ i.reader with decoded := i.reader.startFor body.length }, t₁⟩ :=
    onPart_of_ok (ensureContiguous_of_ready hr hfits)
  have hfill := @fillPending_offers body.length body.length
    ⟨{ i.reader with decoded := i.reader.startFor body.length }, t₁⟩ body t'
    (by simp only [hr.pending]; omega) (by omega) (by simp only [hr.pending]; omega) ht₁
  have htake : onReader (takeBody body.length)
      ⟨({ i.reader with decoded := i.reader.startFor body.length } : RecordReader).filled body, t'⟩ =
      .ok (i.reader.startFor body.length, body) ⟨⟨splice i.reader.buf (i.reader.startFor body.length)
        body, i.reader.startFor body.length + body.length, 0⟩, t'⟩ :=
    onPart_of_ok (takeBody_filled hr.pending hstart)
  have hadvance : advance body.length { i with transport := t₁ } = _ :=
    (bind_of_ok hmoved).trans hfill
  have hbuf : (splice i.reader.buf (i.reader.startFor body.length) body).length =
      i.reader.buf.length := splice_length hstart
  refine ⟨i.reader.startFor body.length, ⟨splice i.reader.buf (i.reader.startFor body.length) body,
    i.reader.startFor body.length + body.length, 0⟩, ?_, ⟨rfl, ?_⟩, hbuf⟩
  · simp only [fetch]
    rw [bind_of_ok (show onTransport nextRecordHeader i = .ok header { i with transport := t₁ } from
      onPart_of_ok hheader), ← hlen, bind_of_ok hadvance]
    exact bind_of_ok htake
  · simp only [hbuf]
    exact hstart

/-- The next record of the stream is fetched, wherever the chunks end. -/
theorem fetch_delivers {i : Intake} {header : RecordHeader} {body rest : Bytes}
    (hr : i.reader.Ready) (hlen : body.length = header.contentLength)
    (hfits : body.length ≤ i.reader.buf.length)
    (h : Delivers i.transport (header.header.val ++ (body ++ rest))) :
    ∃ start i', fetch i = .ok ⟨header, start, body⟩ i' ∧ Delivers i'.transport rest ∧
      i'.reader.Ready ∧ i'.reader.buf.length = i.reader.buf.length := by
  rw [← List.append_assoc] at h
  obtain ⟨t', hoffers, hrest⟩ := h.offers
  obtain ⟨start, r', hfetch, hready, hbuf⟩ := fetch_offers hr hlen hfits hoffers
  exact ⟨start, ⟨r', t'⟩, hfetch, hrest, hready, hbuf⟩

/-- Behind the stream there is nothing to fetch. -/
theorem fetch_closed {i : Intake} (h : Delivers i.transport []) :
    fetch i = .error (.err .ioError) i := by
  obtain ⟨reader, t⟩ := i
  obtain rfl : t = [] := h.eq_nil
  exact bind_of_error (onPart_of_error nextRecordHeader_closed)

end RecordReader

end GatoPskTls
