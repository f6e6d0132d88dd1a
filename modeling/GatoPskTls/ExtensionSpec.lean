import GatoPskTls.ParserSpec

/-!
# The data of list extensions

What each list parser makes of a framed list of entries, given as code points: a list
of known entries within its capacity, or an error. Only signature_algorithms passes over
an entry it does not know.
-/
namespace GatoPskTls

open Stateful BigEndian ParseBuffer

/-- A chunk list read behind a two-byte length. -/
theorem takes_list16 {α β γ : Type} {read : Parser ParseError α} {of : β → Except ParseError α}
    {wire : β → Bytes} {xs : List β} {g : List α → γ} {N : Nat}
    (hpos : ∀ x ∈ xs, 0 < (wire x).length) (hread : ∀ x ∈ xs, Takes read (wire x) (of x))
    (hlen : (xs.flatMap wire).length < 256 ^ 2) :
    Takes (do let dataLength ← readU16; return g (← readList N dataLength read))
      (sized 2 (xs.flatMap wire)) ((xs.foldlM (gather N of) []).map g) := by
  rw [sized]
  apply (takes_readU16 hlen).bind
  exact (takes_readList hpos hread N rfl).map

/-- A chunk list read behind a one-byte length. -/
theorem takes_list8 {α β γ : Type} {read : Parser ParseError α} {of : β → Except ParseError α}
    {wire : β → Bytes} {xs : List β} {g : List α → γ} {N : Nat}
    (hpos : ∀ x ∈ xs, 0 < (wire x).length) (hread : ∀ x ∈ xs, Takes read (wire x) (of x))
    (hlen : (xs.flatMap wire).length < 256 ^ 1) :
    Takes (do let dataLength ← readU8; return g (← readList N dataLength.toNat read))
      (sized 1 (xs.flatMap wire)) ((xs.foldlM (gather N of) []).map g) := by
  obtain ⟨n, hn, hw⟩ := exists_sized_one hlen
  rw [hw]
  apply (takes_readU8 n).bind
  exact (takes_readList hpos hread N hn).map

section Lists

variable {β : Type} {xs : List β} {N : Nat}

theorem ProtocolVersion.takes_parse {v : Nat} (hv : v < 256 ^ 2) :
    Takes ProtocolVersion.parse (bigEndian 2 v) (.ok ⟨v⟩) :=
  (takes_readU16 hv).map

theorem SupportedVersionsClientHello.takes_parse (code : β → Nat)
    (hcodes : ∀ x ∈ xs, code x < 256 ^ 2)
    (hlen : (xs.flatMap fun x => bigEndian 2 (code x)).length < 256 ^ 1) :
    Takes (SupportedVersionsClientHello.parse N) (sized 1 (xs.flatMap fun x => bigEndian 2 (code x)))
      ((xs.foldlM (gather N fun x => .ok ⟨code x⟩) []).map mk) :=
  takes_list8 (fun _ _ => by simp) (fun x hx => ProtocolVersion.takes_parse (hcodes x hx)) hlen

theorem SupportedGroups.takes_parse (code : β → Nat) (hcodes : ∀ x ∈ xs, code x < 256 ^ 2)
    (hlen : (xs.flatMap fun x => bigEndian 2 (code x)).length < 256 ^ 2) :
    Takes (SupportedGroups.parse N) (sized 2 (xs.flatMap fun x => bigEndian 2 (code x)))
      ((xs.foldlM (gather N fun x => lookup NamedGroup.of (code x)) []).map mk) :=
  takes_list16 (fun _ _ => by simp) (fun x hx => takes_readEnum16 (hcodes x hx)) hlen

theorem SignatureAlgorithmsCert.takes_parse (code : β → Nat) (hcodes : ∀ x ∈ xs, code x < 256 ^ 2)
    (hlen : (xs.flatMap fun x => bigEndian 2 (code x)).length < 256 ^ 2) :
    Takes (SignatureAlgorithmsCert.parse N) (sized 2 (xs.flatMap fun x => bigEndian 2 (code x)))
      ((xs.foldlM (gather N fun x => lookup SignatureScheme.of (code x)) []).map mk) :=
  takes_list16 (fun _ _ => by simp) (fun x hx => takes_readEnum16 (hcodes x hx)) hlen

theorem PskKeyExchangeModes.takes_parse (code : β → UInt8)
    (hlen : (xs.flatMap fun x => [code x]).length < 256 ^ 1) :
    Takes (PskKeyExchangeModes.parse N) (sized 1 (xs.flatMap fun x => [code x]))
      ((xs.foldlM (gather N fun x => lookup PskKeyExchangeMode.of (code x)) []).map mk) :=
  takes_list8 (fun _ _ => by simp) (fun x _ => takes_readEnum8 (code x)) hlen

namespace KeyShareEntry

/-- An entry by its code point. -/
def read (code : Nat) (share : Bytes) : Except ParseError KeyShareEntry :=
  (lookup NamedGroup.of code).map (mk · share)

theorem takes_parse {code : Nat} {share : Bytes} (hcode : code < 256 ^ 2)
    (hshare : share.length < 256 ^ 2) :
    Takes KeyShareEntry.parse (bigEndian 2 code ++ sized 2 share) (read code share) := by
  have hgroup := @takes_readEnum16 _ NamedGroup.of _ hcode
  unfold read
  cases hof : lookup NamedGroup.of code with
  | error e =>
      rw [hof] at hgroup
      exact hgroup.bind_error _
  | ok g =>
      rw [hof] at hgroup
      refine hgroup.bind ?_
      rw [sized]
      exact (takes_readU16 hshare).bind (takes_slice rfl).map

end KeyShareEntry

theorem KeyShareClientHello.takes_parse (code : β → Nat) (share : β → Bytes)
    (hcodes : ∀ x ∈ xs, code x < 256 ^ 2) (hshares : ∀ x ∈ xs, (share x).length < 256 ^ 2)
    (hlen : (xs.flatMap fun x => bigEndian 2 (code x) ++ sized 2 (share x)).length < 256 ^ 2) :
    Takes (KeyShareClientHello.parse N)
      (sized 2 (xs.flatMap fun x => bigEndian 2 (code x) ++ sized 2 (share x)))
      ((xs.foldlM (gather N fun x => KeyShareEntry.read (code x) (share x)) []).map mk) :=
  takes_list16 (fun _ _ => by simp)
    (fun x hx => KeyShareEntry.takes_parse (hcodes x hx) (hshares x hx)) hlen

namespace SignatureAlgorithms

/-- One turn of the tolerant loop. -/
def enroll (N : Nat) (acc : List SignatureScheme) (code : Nat) :
    Except ParseError (List SignatureScheme) :=
  match SignatureScheme.of code with
  | some scheme => .ok (if acc.length < N then acc ++ [scheme] else acc)
  | none => .ok acc

theorem takes_step {code : Nat} (hcode : code < 256 ^ 2) (acc : List SignatureScheme) :
    Takes (step N acc) (bigEndian 2 code) (enroll N acc code) := by
  have hparse := @takes_attempt_readEnum16 _ ParseError SignatureScheme.of _ hcode
  unfold lookup at hparse
  unfold enroll
  cases hof : SignatureScheme.of code with
  | none =>
      rw [hof] at hparse
      exact hparse.bind_last (.pure acc)
  | some scheme =>
      rw [hof] at hparse
      exact hparse.bind_last (.pure _)

/-- Known schemes are kept in order up to the capacity; the others leave no trace. -/
theorem foldlM_enroll (code : β → Nat) {acc : List SignatureScheme} (hacc : acc.length ≤ N) :
    xs.foldlM (fun acc x => enroll N acc (code x)) acc =
      .ok ((acc ++ xs.filterMap fun x => SignatureScheme.of (code x)).take N) := by
  induction xs generalizing acc with
  | nil => simp [pure, Except.pure, List.take_of_length_le hacc]
  | cons x xs ih =>
      rw [List.foldlM_cons, enroll]
      cases hof : SignatureScheme.of (code x) with
      | none =>
          rw [ok_bind, ih hacc]
          simp [hof]
      | some scheme =>
          rw [ok_bind]
          split
          · rw [ih (by simp; omega)]
            simp [hof]
          · rw [ih hacc, List.take_append_of_le_length (by omega),
              List.take_append_of_le_length (by omega)]

theorem takes_parse (code : β → Nat) (hcodes : ∀ x ∈ xs, code x < 256 ^ 2)
    (hlen : (xs.flatMap fun x => bigEndian 2 (code x)).length < 256 ^ 2) :
    Takes (SignatureAlgorithms.parse N) (sized 2 (xs.flatMap fun x => bigEndian 2 (code x)))
      (.ok ⟨(xs.filterMap fun x => SignatureScheme.of (code x)).take N⟩) := by
  have hloop := takes_sliceLoop (fun _ _ => by simp)
    (fun x hx acc => takes_step (N := N) (hcodes x hx) acc) [] rfl
  rw [foldlM_enroll code (Nat.zero_le N), List.nil_append] at hloop
  rw [sized, SignatureAlgorithms.parse]
  refine (takes_readU16 hlen).bind ?_
  have key := hloop.map (g := mk)
  simpa only [bind_assoc, Except.map] using key

end SignatureAlgorithms

end Lists

end GatoPskTls
