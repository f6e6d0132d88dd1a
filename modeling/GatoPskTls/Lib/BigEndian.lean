import Mathlib.Tactic

/-!
# Fixed-width big-endian numerals and byte-wise exclusive or

`bigEndian w n` is the `w`-byte numeral of `n`, truncated to its low `8 * w`
bits the way a narrowing cast truncates.
-/
namespace BigEndian

abbrev Bytes := List UInt8

def bigEndian : Nat → Nat → Bytes
  | 0, _ => []
  | w+1, n => UInt8.ofNat (n / 256 ^ w) :: bigEndian w n

def fromBigEndian : Bytes → Nat
  | [] => 0
  | b :: bs => b.toNat * 256 ^ bs.length + fromBigEndian bs

@[simp] theorem bigEndian_length (w n : Nat) : (bigEndian w n).length = w := by
  induction w with
  | zero => rfl
  | succ w ih => simp only [bigEndian, List.length_cons, ih]

@[simp] theorem bigEndian_two (n : Nat) :
    bigEndian 2 n = [UInt8.ofNat (n / 256), UInt8.ofNat n] := by
  simp [bigEndian]

@[simp] theorem bigEndian_three (n : Nat) :
    bigEndian 3 n = [UInt8.ofNat (n / 65536), UInt8.ofNat (n / 256), UInt8.ofNat n] := by
  simp [bigEndian]

theorem fromBigEndian_lt (bs : Bytes) : fromBigEndian bs < 256 ^ bs.length := by
  induction bs with
  | nil => simp [fromBigEndian]
  | cons b bs ih =>
      have hb : b.toNat ≤ 255 := Nat.le_of_lt_succ b.toNat_lt
      have hm : b.toNat * 256 ^ bs.length ≤ 255 * 256 ^ bs.length :=
        Nat.mul_le_mul_right _ hb
      simp only [fromBigEndian, List.length_cons, Nat.pow_succ]
      omega

theorem fromBigEndian_bigEndian (w n : Nat) : fromBigEndian (bigEndian w n) = n % 256 ^ w := by
  induction w with
  | zero => simp [bigEndian, fromBigEndian, Nat.mod_one]
  | succ w ih =>
      simp only [bigEndian, fromBigEndian, bigEndian_length, ih, UInt8.toNat_ofNat']
      rw [Nat.pow_succ 256 w, Nat.mod_mul, Nat.mul_comm _ (256 ^ w), Nat.add_comm]

theorem bigEndian_fromBigEndian (bs : Bytes) : bigEndian bs.length (fromBigEndian bs) = bs := by
  suffices h : ∀ (bs : Bytes) (hi : Nat),
      bigEndian bs.length (hi * 256 ^ bs.length + fromBigEndian bs) = bs by
    simpa using h bs 0
  intro bs
  induction bs with
  | nil => intro hi; rfl
  | cons b bs ih =>
      intro hi
      have hlt := fromBigEndian_lt bs
      have hpos : 0 < 256 ^ bs.length := Nat.pow_pos (by decide)
      -- the high part only shifts the leading digit by a multiple of 256
      have hsplit : hi * 256 ^ (bs.length + 1) + (b.toNat * 256 ^ bs.length + fromBigEndian bs) =
          (hi * 256 + b.toNat) * 256 ^ bs.length + fromBigEndian bs := by ring
      have hdigit : ((hi * 256 + b.toNat) * 256 ^ bs.length + fromBigEndian bs) /
          256 ^ bs.length = hi * 256 + b.toNat := by
        rw [Nat.add_comm, Nat.add_mul_div_right _ _ hpos, Nat.div_eq_of_lt hlt, Nat.zero_add]
      simp only [List.length_cons, fromBigEndian, bigEndian, hsplit, hdigit, ih]
      congr 1
      apply UInt8.toNat_inj.mp
      have := b.toNat_lt
      simp only [UInt8.toNat_ofNat']
      omega

theorem bigEndian_injOn {w m n : Nat} (hm : m < 256 ^ w) (hn : n < 256 ^ w)
    (h : bigEndian w m = bigEndian w n) : m = n := by
  have := congrArg fromBigEndian h
  rwa [fromBigEndian_bigEndian, fromBigEndian_bigEndian, Nat.mod_eq_of_lt hm,
    Nat.mod_eq_of_lt hn] at this

/-- A block behind its own `w`-byte length. -/
def sized (w : Nat) (bs : Bytes) : Bytes := bigEndian w bs.length ++ bs

@[simp] theorem sized_length (w : Nat) (bs : Bytes) : (sized w bs).length = w + bs.length := by
  simp [sized]

theorem sized_one {bs : Bytes} {n : UInt8} (h : bs.length = n.toNat) : sized 1 bs = [n] ++ bs := by
  simp [sized, bigEndian, h]

theorem exists_sized_one {bs : Bytes} (h : bs.length < 256 ^ 1) :
    ∃ n : UInt8, bs.length = n.toNat ∧ sized 1 bs = [n] ++ bs :=
  have hn : bs.length = (UInt8.ofNat bs.length).toNat := (Nat.mod_eq_of_lt h).symm
  ⟨_, hn, sized_one hn⟩

/-- The block behind a `w`-byte length, and what follows it. -/
def takeSized (w : Nat) (bs : Bytes) : Bytes := (bs.drop w).take (fromBigEndian (bs.take w))

def dropSized (w : Nat) (bs : Bytes) : Bytes := (bs.drop w).drop (fromBigEndian (bs.take w))

private theorem split_sized {w : Nat} {bs rest : Bytes} (h : bs.length < 256 ^ w) :
    fromBigEndian ((sized w bs ++ rest).take w) = bs.length ∧
      (sized w bs ++ rest).drop w = bs ++ rest := by
  rw [sized, List.append_assoc, List.take_left' (bigEndian_length w _),
    List.drop_left' (bigEndian_length w _), fromBigEndian_bigEndian, Nat.mod_eq_of_lt h]
  exact ⟨rfl, rfl⟩

@[simp] theorem takeSized_sized {w : Nat} {bs rest : Bytes} (h : bs.length < 256 ^ w) :
    takeSized w (sized w bs ++ rest) = bs := by
  rw [takeSized, (split_sized h).1, (split_sized h).2, List.take_left]

@[simp] theorem dropSized_sized {w : Nat} {bs rest : Bytes} (h : bs.length < 256 ^ w) :
    dropSized w (sized w bs ++ rest) = rest := by
  rw [dropSized, (split_sized h).1, (split_sized h).2, List.drop_left]

/-- A length prefix marks where its block ends. -/
theorem sized_append_inj {w : Nat} {a b c d : Bytes} (ha : a.length < 256 ^ w)
    (hc : c.length < 256 ^ w) (h : sized w a ++ b = sized w c ++ d) : a = c ∧ b = d := by
  refine ⟨?_, ?_⟩
  · rw [← @takeSized_sized w a b ha, h, takeSized_sized hc]
  · rw [← @dropSized_sized w a b ha, h, dropSized_sized hc]

def xorBytes (a b : Bytes) : Bytes := a.zipWith (· ^^^ ·) b

@[simp] theorem xorBytes_length (a b : Bytes) :
    (xorBytes a b).length = min a.length b.length := by
  simp [xorBytes]

/-- A fixed mask at least as long as its arguments loses nothing. -/
theorem xorBytes_cancel_left {a b c : Bytes} (hb : b.length = a.length) (hc : c.length = a.length)
    (h : xorBytes a b = xorBytes a c) : b = c := by
  induction a generalizing b c with
  | nil =>
      rw [List.length_eq_zero_iff.mp hb, List.length_eq_zero_iff.mp hc]
  | cons x a ih =>
      obtain ⟨y, b, rfl⟩ := List.exists_cons_of_length_eq_add_one hb
      obtain ⟨z, c, rfl⟩ := List.exists_cons_of_length_eq_add_one hc
      simp only [xorBytes, List.zipWith_cons_cons, List.cons.injEq] at h
      obtain ⟨hhead, htail⟩ := h
      have hyz : y = z := by
        have := congrArg (x ^^^ ·) hhead
        simpa [← UInt8.xor_assoc] using this
      rw [hyz, ih (by simpa using hb) (by simpa using hc) htail]

end BigEndian
