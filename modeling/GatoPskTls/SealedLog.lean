import GatoPskTls.Nonce
import GatoPskTls.Client.SendStream

/-!
# An AEAD against an active network

A sender seals plaintexts under one key, with ascending counts. A network that delivers anything
cannot make up a record: of what a run asks the AEAD to open, it opens what was sealed, each record
under its own nonce. What opens under a count is then the plaintext that was sealed under that
count. Nothing is assumed of records that are never delivered.
-/
namespace GatoPskTls

open Client (advanced)

variable {cs : TlsCipherSuite}

/-- What an AEAD has given out: a ciphertext, and the nonce and the associated data it stands
under. -/
structure SealedEntry (cs : TlsCipherSuite) where
  nonce : GenericArray cs.ivLen
  aad : Bytes
  ciphertext : Bytes
  deriving DecidableEq

/-- A record is its header, which is the associated data, and a ciphertext. -/
def SealedEntry.ofRecord (nonce : GenericArray cs.ivLen) (record : Bytes) : SealedEntry cs :=
  ⟨nonce, record.take HEADER_SIZE, record.drop HEADER_SIZE⟩

/-- The records of these plaintexts, sealed in order from the state `s` on. -/
inductive Emits (P : Primitives cs) (s : KeyScheduleState cs) :
    List Bytes → List (SealedEntry cs) → Prop
  | nil : Emits P s [] []
  | snoc {plaintexts : List Bytes} {log : List (SealedEntry cs)} {plaintext record : Bytes} :
      Emits P s plaintexts log →
      sealedRecord P (advanced s plaintexts.length) plaintext = some record →
      Emits P s (plaintexts ++ [plaintext])
        (log ++ [.ofRecord (KeyScheduleState.nonce (advanced s plaintexts.length).counter s.iv) record])

/-- What is in the log opens to what was sealed. -/
def Recovers (P : Primitives cs) (key : GenericArray cs.keyLen) (log : List (SealedEntry cs)) : Prop :=
  ∀ e ∈ log, ∀ plaintext, P.aeadSeal key e.nonce e.aad plaintext = some e.ciphertext →
    P.aeadOpen key e.nonce e.aad e.ciphertext = some plaintext

/-- Of what the AEAD is asked to open, it opens only what is in the log. -/
def Unforgeable (P : Primitives cs) (key : GenericArray cs.keyLen)
    (log asked : List (SealedEntry cs)) : Prop :=
  ∀ e ∈ asked, (P.aeadOpen key e.nonce e.aad e.ciphertext).isSome → e ∈ log

theorem Primitives.AeadCorrect.recovers {P : Primitives cs} (hP : P.AeadCorrect)
    (key : GenericArray cs.keyLen) (log : List (SealedEntry cs)) : Recovers P key log :=
  fun _ _ _ hseal => hP.opens hseal

section Counts

variable {s : KeyScheduleState cs}

theorem advanced_counter {n : Nat} (h : s.counter.toNat + n < 2 ^ 64) :
    (advanced s n).counter.toNat = s.counter.toNat + n :=
  UInt64.toNat_ofNat_of_lt' h

theorem advanced_zero (s : KeyScheduleState cs) : advanced s 0 = s := by
  rw [advanced, Nat.add_zero, UInt64.ofNat_toNat]

theorem advanced_next (s : KeyScheduleState cs) (n : Nat) :
    { advanced s n with counter := (advanced s n).counter + 1 } = advanced s (n + 1) := by
  simp only [advanced, ← Nat.add_assoc, UInt64.ofNat_add]
  rfl

theorem canCount_advanced {n : Nat} (h : s.counter.toNat + (n + 1) < 2 ^ 64) :
    CanCount (advanced s n) := by
  rw [CanCount, advanced_counter (by omega)]
  omega

/-- Two counts that do not wrap have different nonces. -/
theorem advanced_nonce_inj {m n : Nat} (hm : s.counter.toNat + m < 2 ^ 64)
    (hn : s.counter.toNat + n < 2 ^ 64)
    (h : KeyScheduleState.nonce (advanced s m).counter s.iv =
      KeyScheduleState.nonce (advanced s n).counter s.iv) : m = n := by
  have hcount := congrArg UInt64.toNat (KeyScheduleState.nonce_injective h)
  rw [advanced_counter hm, advanced_counter hn] at hcount
  omega

end Counts

section Log

variable {P : Primitives cs} {s : KeyScheduleState cs} {plaintexts : List Bytes}
  {log : List (SealedEntry cs)}

theorem sealedRecord_eq_some {plaintext record : Bytes} (h : sealedRecord P s plaintext = some record) :
    record.take HEADER_SIZE = additionalData (plaintext.length + cs.tagSize) ∧
      P.aeadSeal s.key (KeyScheduleState.nonce s.counter s.iv) (record.take HEADER_SIZE) plaintext =
        some (record.drop HEADER_SIZE) := by
  obtain ⟨ciphertext, hseal, rfl⟩ := Option.map_eq_some_iff.mp h
  have hsize : (additionalData (plaintext.length + cs.tagSize)).length = HEADER_SIZE := by
    simp [additionalData, HEADER_SIZE]
  rw [List.take_left' hsize, List.drop_left' hsize]
  exact ⟨rfl, hseal⟩

theorem Emits.length_eq (h : Emits P s plaintexts log) : plaintexts.length = log.length := by
  induction h with
  | nil => rfl
  | snoc _ _ ih => simp [ih]

/-- Every entry is the record of the plaintext that has its place. -/
theorem Emits.mem (h : Emits P s plaintexts log) {e : SealedEntry cs} (he : e ∈ log) :
    ∃ i plaintext, plaintexts[i]? = some plaintext ∧
      e.nonce = KeyScheduleState.nonce (advanced s i).counter s.iv ∧
      e.aad = additionalData (plaintext.length + cs.tagSize) ∧
      P.aeadSeal s.key e.nonce e.aad plaintext = some e.ciphertext := by
  induction h with
  | nil => cases he
  | @snoc plaintexts log plaintext record _ hrecord ih =>
      rcases List.mem_append.mp he with he | he
      · obtain ⟨i, p, hp, hnonce, haad, hseal⟩ := ih he
        have hi := (List.getElem?_eq_some_iff.mp hp).1
        exact ⟨i, p, by rwa [List.getElem?_append_left hi], hnonce, haad, hseal⟩
      · rw [List.mem_singleton] at he
        subst he
        obtain ⟨haad, hseal⟩ := sealedRecord_eq_some hrecord
        exact ⟨plaintexts.length, plaintext, by simp, rfl, haad, hseal⟩

/-- What opens under a count that does not wrap is the plaintext that has that place. -/
theorem Unforgeable.opened {asked : List (SealedEntry cs)} (hP : Unforgeable P s.key log asked)
    (hopens : Recovers P s.key log) (hlog : Emits P s plaintexts log)
    (hcount : s.counter.toNat + plaintexts.length ≤ 2 ^ 64) {n : Nat}
    (hn : s.counter.toNat + n < 2 ^ 64) {e : SealedEntry cs} (he : e ∈ asked)
    (hnonce : e.nonce = KeyScheduleState.nonce (advanced s n).counter s.iv) {plaintext : Bytes}
    (hopen : P.aeadOpen s.key e.nonce e.aad e.ciphertext = some plaintext) :
    plaintexts[n]? = some plaintext := by
  have hmem := hP e he (Option.isSome_of_eq_some hopen)
  obtain ⟨i, p, hp, hplace, -, hseal⟩ := hlog.mem hmem
  have hi := (List.getElem?_eq_some_iff.mp hp).1
  obtain rfl : n = i := advanced_nonce_inj hn (by omega) (hnonce.symm.trans hplace)
  rw [hp, ← hopen]
  exact (hopens e hmem p hseal).symm

end Log

end GatoPskTls
