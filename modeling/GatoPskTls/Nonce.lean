import GatoPskTls.KeySchedule

/-!
# Nonces

The padding loop puts the counter at the end of a block of zeros, so that a nonce is the IV
with the counter, as a number of the same width, added bit by bit. One IV never gives the same
nonce to two counts.
-/
namespace GatoPskTls.KeyScheduleState

open BigEndian

variable {cs : TlsCipherSuite}

/-- The loop fills `front` from its end; what it has filled so far stands behind. -/
theorem pad_loop (n : Nat) (input : Bytes) {k : Nat} {front back : Bytes}
    (hfront : front.length + k = n) (hlen : input.length ≤ front.length) :
    (input.zipIdx k).foldl (fun padded p => padded.set (n - p.2 - 1) p.1) (front ++ back) =
      front.take (front.length - input.length) ++ (input.reverse ++ back) := by
  induction input generalizing k front back with
  | nil => simp
  | cons byte input ih =>
      rw [List.length_cons] at hlen
      obtain ⟨front, last, rfl⟩ : ∃ init last, front = init ++ [last] :=
        ⟨_, _, (List.dropLast_append_getLast (List.ne_nil_of_length_pos (by omega))).symm⟩
      rw [List.length_append, List.length_singleton] at hfront hlen
      have hset : (front ++ [last] ++ back).set (n - k - 1) byte = front ++ (byte :: back) := by
        rw [show n - k - 1 = front.length by omega, List.append_assoc, List.set_append_right _ _ (le_refl _),
          Nat.sub_self]
        rfl
      rw [List.zipIdx_cons, List.foldl_cons, hset, ih (by omega) (by omega)]
      rw [List.length_append, List.length_singleton, List.length_cons, List.take_append_of_le_length (by omega),
        List.reverse_cons, List.append_assoc, List.singleton_append]
      congr 2
      omega

/-- Padding puts zeros in front. -/
theorem pad_eq {n : Nat} {input : Bytes} (h : input.length ≤ n) :
    pad n input = List.replicate (n - input.length) 0 ++ input := by
  have hloop := @pad_loop n input.reverse 0 (List.replicate n 0) [] (by simp) (by simpa using h)
  rw [List.append_nil, List.append_nil, List.reverse_reverse, List.length_replicate,
    List.length_reverse, List.take_replicate, Nat.min_eq_left (Nat.sub_le _ _)] at hloop
  exact hloop

/-- A nonce is the IV xor the counter, a big-endian number as wide as the IV. -/
theorem nonce_eq (counter : UInt64) (iv : GenericArray cs.ivLen) :
    (nonce counter iv).val = xorBytes iv.val (bigEndian cs.ivLen counter.toNat) := by
  have hwide : bigEndian cs.ivLen counter.toNat = List.replicate 4 0 ++ bigEndian 8 counter.toNat := by
    have hlt : counter.toNat < 2 ^ 64 := counter.toNat_lt
    have hdiv : ∀ k, 8 ≤ k → counter.toNat / 256 ^ k = 0 := fun k hk =>
      Nat.div_eq_of_lt (lt_of_lt_of_le hlt (by
        calc 2 ^ 64 = 256 ^ 8 := by norm_num
          _ ≤ 256 ^ k := Nat.pow_le_pow_right (by norm_num) hk))
    rw [TlsCipherSuite.ivLen]
    simp only [bigEndian, hdiv 8 (by omega), hdiv 9 (by omega), hdiv 10 (by omega), hdiv 11 (by omega)]
    rfl
  have hpad := @pad_eq cs.ivLen (bigEndian 8 counter.toNat) (by simp [TlsCipherSuite.ivLen])
  rw [bigEndian_length] at hpad
  exact congrArg (xorBytes iv.val) (hpad.trans hwide.symm)

theorem nonce_injective {iv : GenericArray cs.ivLen} {c c' : UInt64} (h : nonce c iv = nonce c' iv) :
    c = c' := by
  have hval := congrArg Subtype.val h
  rw [nonce_eq, nonce_eq] at hval
  have hbytes := xorBytes_cancel_left (by rw [bigEndian_length, iv.property])
    (by rw [bigEndian_length, iv.property]) hval
  have hlt : ∀ c : UInt64, c.toNat < 256 ^ cs.ivLen := fun c =>
    lt_of_lt_of_le c.toNat_lt (by rw [TlsCipherSuite.ivLen]; norm_num)
  exact UInt64.toNat_inj.mp (bigEndian_injOn (hlt c) (hlt c') hbytes)

end GatoPskTls.KeyScheduleState
