import GatoPskTls.Lib.Framing
import GatoPskTls.ParserSpec

/-!
# Offered pre-shared keys

The data of a client's pre_shared_key extension as a grammar: a block of identities, each with a
ticket age, and a block of binders, one for each identity and all of one length. The parser accepts
exactly what starts with such data.
-/
namespace GatoPskTls

open Stateful BigEndian ParseBuffer

/-- An identity and the four bytes of its ticket age. -/
structure PskIdentity where
  identity : Bytes
  ticketAge : GenericArray 4
  nonempty : identity ≠ []
  fits : identity.length < 256 ^ 2

def PskIdentity.wire (id : PskIdentity) : Bytes := sized 2 id.identity ++ id.ticketAge.val

structure OfferedPsks (N : Nat) where
  identities : List PskIdentity
  binders : List Bytes
  hashSize : Nat
  nonempty : identities ≠ []
  capacity : identities.length ≤ N
  paired : binders.length = identities.length
  binder_length : ∀ binder ∈ binders, binder.length = hashSize
  hashSize_ge : 32 ≤ hashSize
  hashSize_lt : hashSize < 256 ^ 1
  identities_fit : (identities.flatMap PskIdentity.wire).length < 256 ^ 2
  binders_fit : (binders.flatMap (sized 1)).length < 256 ^ 2

namespace OfferedPsks

variable {N : Nat}

def identityBlock (offered : OfferedPsks N) : Bytes := offered.identities.flatMap PskIdentity.wire

def binderBlock (offered : OfferedPsks N) : Bytes := offered.binders.flatMap (sized 1)

def wire (offered : OfferedPsks N) : Bytes :=
  sized 2 offered.identityBlock ++ sized 2 offered.binderBlock

/-- What the parser keeps: the ticket ages are passed over. -/
def kept (offered : OfferedPsks N) : PreSharedKeyClientHello :=
  ⟨offered.identities.map PskIdentity.identity, offered.binders, offered.hashSize⟩

end OfferedPsks

theorem PskIdentity.wire_length (id : PskIdentity) : id.wire.length = 6 + id.identity.length := by
  rw [wire, List.length_append, sized_length, id.ticketAge.property]
  omega

namespace PreSharedKeyClientHello

variable {N : Nat}

/-- A turn of the first loop. -/
def KeepsIdentity (N : Nat) (acc : List Bytes) (id : PskIdentity) (acc' : List Bytes) : Prop :=
  acc.length < N ∧ acc' = acc ++ [id.identity]

theorem takes_identityStep {acc : List Bytes} (hroom : acc.length < N) (id : PskIdentity) :
    Takes (identityStep N acc) id.wire (.ok (acc ++ [id.identity])) := by
  have hpos : ¬id.identity.length < 1 := by
    rw [Nat.lt_one_iff, List.length_eq_zero_iff]
    exact id.nonempty
  -- the ticket age as the number the parser reads
  have hage : id.ticketAge.val = bigEndian 4 (fromBigEndian id.ticketAge.val) := by
    have h := bigEndian_fromBigEndian id.ticketAge.val
    rw [id.ticketAge.property] at h
    exact h.symm
  have hlt : fromBigEndian id.ticketAge.val < 256 ^ 4 := by
    have h := fromBigEndian_lt id.ticketAge.val
    rwa [id.ticketAge.property] at h
  rw [PskIdentity.wire, sized, List.append_assoc, hage, identityStep]
  apply (takes_readU16 id.fits).bind
  rw [if_neg hpos]
  apply (takes_slice rfl).bind
  rw [pushWithin, if_pos hroom]
  exact (Takes.pure _).bind (takes_readU32 hlt).map

theorem identityStep_eq_ok {acc acc' : List Bytes} {b b' : ParseBuffer} :
    identityStep N acc b = .ok acc' b' ↔ ∃ id, KeepsIdentity N acc id acc' ∧ Reads b id.wire b' := by
  constructor
  · intro h
    simp only [identityStep, bind_eq_ok, readU16_eq_ok] at h
    obtain ⟨n, b₁, ⟨hn, hr₁⟩, h⟩ := h
    split at h
    · simp at h
    next hpos =>
      simp only [bind_eq_ok, slice_eq_ok, pushWithin_eq_ok, readU32_eq_ok, pure_apply,
        EStateM.Result.ok.injEq] at h
      obtain ⟨s, b₂, ⟨w, rfl, rfl, hr₂⟩, ids, b₃, ⟨hroom, rfl, rfl⟩, age, b₄, ⟨-, hr₄⟩, rfl, rfl⟩ := h
      refine ⟨⟨w, ⟨bigEndian 4 age, bigEndian_length 4 age⟩, ?_, hn⟩, ⟨hroom, rfl⟩,
        (hr₁.trans hr₂).trans hr₄⟩
      rintro rfl
      exact hpos Nat.one_pos
  · rintro ⟨id, ⟨hroom, rfl⟩, hreads⟩
    exact (takes_identityStep hroom id).of_reads hreads

theorem turns_keepsIdentity {acc acc' : List Bytes} {ids : List PskIdentity} :
    Turns (KeepsIdentity N) acc ids acc' ↔
      acc' = acc ++ ids.map PskIdentity.identity ∧ (ids = [] ∨ acc.length + ids.length ≤ N) := by
  constructor
  · intro h
    induction h with
    | nil acc => exact ⟨(List.append_nil acc).symm, .inl rfl⟩
    | @cons acc _ _ id ids hturn hturns ih =>
        obtain ⟨hroom, rfl⟩ := hturn
        obtain ⟨rfl, hcap⟩ := ih
        refine ⟨by simp, .inr ?_⟩
        rw [List.length_append, List.length_singleton] at hcap
        rw [List.length_cons]
        rcases hcap with rfl | hcap
        · exact hroom
        · omega
  · rintro ⟨rfl, hcap⟩
    induction ids generalizing acc with
    | nil =>
        rw [List.map_nil, List.append_nil]
        exact .nil acc
    | cons id ids ih =>
        rcases hcap with hnil | hcap
        · cases hnil
        rw [List.length_cons] at hcap
        have hrest := @ih (acc ++ [id.identity])
          (.inr (by rw [List.length_append, List.length_singleton]; omega))
        rw [List.append_assoc] at hrest
        exact .cons ⟨by omega, rfl⟩ hrest

/-- A turn of the second loop: all binders have the length of the first. -/
structure KeepsBinder (N : Nat) (acc : List Bytes × Nat) (binder : Bytes) (acc' : List Bytes × Nat) :
    Prop where
  room : acc.1.length < N
  length_ge : 32 ≤ binder.length
  length_lt : binder.length < 256 ^ 1
  same : acc.2 = 0 ∨ acc.2 = binder.length
  kept : acc' = (acc.1 ++ [binder], binder.length)

theorem takes_binderStep {acc acc' : List Bytes × Nat} {binder : Bytes}
    (h : KeepsBinder N acc binder acc') : Takes (binderStep N acc) (sized 1 binder) (.ok acc') := by
  obtain ⟨hroom, hge, hlt, hsame, rfl⟩ := h
  obtain ⟨n, hn, hw⟩ := exists_sized_one hlt
  rw [hw, binderStep]
  apply (takes_readU8 n).bind
  rw [if_neg (by omega)]
  apply (takes_slice hn).bind_last
  rw [pushWithin, if_pos hroom, new_buffer, ← hn]
  apply (Takes.pure _).bind_last
  split
  · exact .pure _
  next hne =>
    have heq := hsame.resolve_left hne
    rw [if_neg (not_not.mpr heq), heq]
    exact .pure _

theorem binderStep_eq_ok {acc acc' : List Bytes × Nat} {b b' : ParseBuffer} :
    binderStep N acc b = .ok acc' b' ↔
      ∃ binder, KeepsBinder N acc binder acc' ∧ Reads b (sized 1 binder) b' := by
  constructor
  · intro h
    simp only [binderStep, bind_eq_ok, readU8_eq_ok] at h
    obtain ⟨n, b₁, hr₁, h⟩ := h
    split at h
    · simp at h
    next hge =>
      simp only [bind_eq_ok, slice_eq_ok, pushWithin_eq_ok] at h
      obtain ⟨s, b₂, ⟨w, rfl, hw, hr₂⟩, binders, b₃, ⟨hroom, rfl, rfl⟩, h⟩ := h
      have hwire : sized 1 w = [n] ++ w := by simp [sized, bigEndian, hw]
      have hlt := n.toNat_lt
      have hreads : Reads b (sized 1 w) b₃ := hwire ▸ hr₁.trans hr₂
      rw [new_buffer, ← hw] at h
      split at h
      next hzero =>
        cases h
        exact ⟨w, ⟨hroom, by omega, by omega, .inl hzero, rfl⟩, hreads⟩
      · split at h
        · simp at h
        next hsame =>
          have hsame := not_not.mp hsame
          cases h
          exact ⟨w, ⟨hroom, by omega, by omega, .inr hsame, by rw [hsame]⟩, hreads⟩
  · rintro ⟨binder, hturn, hreads⟩
    exact (takes_binderStep hturn).of_reads hreads

theorem turns_keepsBinder_append {acc acc' : List Bytes} {h h' : Nat} {binders : List Bytes}
    (hturns : Turns (KeepsBinder N) (acc, h) binders (acc', h')) :
    acc' = acc ++ binders ∧ (∀ binder ∈ binders, binder.length = h') ∧
      (binders = [] ∧ h' = h ∨ (h = 0 ∨ h = h') ∧ 32 ≤ h' ∧ h' < 256 ^ 1 ∧
        acc.length + binders.length ≤ N) := by
  induction binders generalizing acc h with
  | nil =>
      cases hturns
      exact ⟨(List.append_nil _).symm, by simp, .inl ⟨rfl, rfl⟩⟩
  | cons binder binders ih =>
      obtain _ | ⟨⟨hroom, hge, hlt, hsame, rfl⟩, hturns⟩ := hturns
      obtain ⟨rfl, heach, hrest⟩ := ih hturns
      dsimp only at hroom hsame hrest
      rw [List.length_append, List.length_singleton] at hrest
      simp only [List.mem_cons, forall_eq_or_imp, List.length_cons, List.append_assoc,
        List.singleton_append, true_and]
      rcases hrest with ⟨rfl, rfl⟩ | ⟨hbinder, -, -, hcap⟩
      · exact ⟨⟨rfl, heach⟩, .inr ⟨hsame, hge, hlt, by simpa using hroom⟩⟩
      · have hbinder : binder.length = h' := hbinder.resolve_left (by omega)
        rw [hbinder] at hsame hge hlt
        exact ⟨⟨hbinder, heach⟩, .inr ⟨hsame, hge, hlt, by omega⟩⟩

theorem turns_keepsBinder {acc : List Bytes} {h₀ h : Nat} {binders : List Bytes}
    (hstart : h₀ = 0 ∨ h₀ = h) (hne : binders ≠ []) (hge : 32 ≤ h) (hlt : h < 256 ^ 1)
    (heach : ∀ binder ∈ binders, binder.length = h) (hcap : acc.length + binders.length ≤ N) :
    Turns (KeepsBinder N) (acc, h₀) binders (acc ++ binders, h) := by
  induction binders generalizing acc h₀ with
  | nil => exact absurd rfl hne
  | cons binder binders ih =>
      obtain ⟨hbinder, heach⟩ := List.forall_mem_cons.mp heach
      rw [List.length_cons] at hcap
      have hturn : KeepsBinder N (acc, h₀) binder (acc ++ [binder], h) :=
        ⟨show acc.length < N by omega, by omega, by omega, by rw [hbinder]; exact hstart,
          by rw [hbinder]⟩
      apply Turns.cons hturn
      cases binders with
      | nil => exact .nil _
      | cons next binders =>
          have hrest := @ih (acc ++ [binder]) h (.inr rfl) (by simp) heach
            (by rw [List.length_append, List.length_singleton]; omega)
          rwa [List.append_assoc] at hrest

theorem length_identityBlock (offered : OfferedPsks N) : 7 ≤ offered.identityBlock.length := by
  obtain ⟨id, hid⟩ := List.exists_mem_of_ne_nil _ offered.nonempty
  have hle := @length_le_flatMap _ PskIdentity.wire _ _ hid
  have hpos := List.length_pos_iff.mpr id.nonempty
  rw [id.wire_length] at hle
  exact Nat.le_trans (by omega) hle

theorem binders_ne_nil (offered : OfferedPsks N) : offered.binders ≠ [] := by
  rw [← List.length_pos_iff, offered.paired, List.length_pos_iff]
  exact offered.nonempty

theorem length_binderBlock (offered : OfferedPsks N) : 33 ≤ offered.binderBlock.length := by
  obtain ⟨binder, hbinder⟩ := List.exists_mem_of_ne_nil _ (binders_ne_nil offered)
  have hle := @length_le_flatMap _ (sized 1) _ _ hbinder
  have hge := offered.hashSize_ge
  rw [sized_length, offered.binder_length binder hbinder] at hle
  exact Nat.le_trans (by omega) hle

/-- The first block, emptied by the first loop. -/
theorem identities_eq_ok {block : Bytes} {identities : List Bytes} {d : ParseBuffer} :
    whileNotEmpty (identityStep N) (new block).remaining [] (new block) = .ok identities d ↔
      ∃ ids : List PskIdentity, Turns (KeepsIdentity N) [] ids identities ∧
        Reads (new block) (ids.flatMap PskIdentity.wire) d ∧ d.rest = [] :=
  @whileNotEmpty_eq_ok_iff _ _ _ (identityStep N) (KeepsIdentity N) _ (fun id => by rw [id.wire_length]; omega)
    (fun _ _ _ _ => identityStep_eq_ok) _ _ _ _ _ (Nat.le_refl _)

theorem binders_eq_ok {block : Bytes} {acc : List Bytes × Nat} {d : ParseBuffer} :
    whileNotEmpty (binderStep N) (new block).remaining ([], 0) (new block) = .ok acc d ↔
      ∃ binders : List Bytes, Turns (KeepsBinder N) ([], 0) binders acc ∧
        Reads (new block) (binders.flatMap (sized 1)) d ∧ d.rest = [] :=
  @whileNotEmpty_eq_ok_iff _ _ _ (binderStep N) (KeepsBinder N) _ (fun binder => by rw [sized_length]; omega)
    (fun _ _ _ _ => binderStep_eq_ok) _ _ _ _ _ (Nat.le_refl _)

/-- The extension as it stands on the wire is read back. -/
theorem takes_parse (offered : OfferedPsks N) :
    Takes (parse N) offered.wire (.ok offered.kept) := by
  have hread : ∀ block : Bytes, ∃ d, Reads (new block) block d ∧ d.rest = [] :=
    fun block => exists_reads ((new_rest block).trans (List.append_nil block).symm)
  obtain ⟨d, hd, hdend⟩ := hread offered.identityBlock
  obtain ⟨e, he, heend⟩ := hread offered.binderBlock
  have hids := identities_eq_ok.mpr ⟨offered.identities, turns_keepsIdentity.mpr
    ⟨rfl, .inr (by simpa using offered.capacity)⟩, hd, hdend⟩
  have hbinders := binders_eq_ok.mpr ⟨offered.binders, turns_keepsBinder (.inl rfl)
    (binders_ne_nil offered) offered.hashSize_ge offered.hashSize_lt offered.binder_length
    (by simpa [offered.paired] using offered.capacity), he, heend⟩
  have hidLoop := Takes.within (whileNotEmpty (identityStep N) (new offered.identityBlock).remaining [])
    (new offered.identityBlock)
  have hbinderLoop := Takes.within
    (whileNotEmpty (binderStep N) (new offered.binderBlock).remaining ([], 0))
    (new offered.binderBlock)
  rw [hids, outcome_ok] at hidLoop
  rw [hbinders, outcome_ok] at hbinderLoop
  have hidFit : offered.identityBlock.length < 256 ^ 2 := offered.identities_fit
  have hbinderFit : offered.binderBlock.length < 256 ^ 2 := offered.binders_fit
  have hidLen := length_identityBlock offered
  have hbinderLen := length_binderBlock offered
  rw [OfferedPsks.wire, sized, List.append_assoc, parse]
  apply (takes_readU16 hidFit).bind
  rw [if_neg (by omega)]
  apply (takes_slice rfl).bind
  rw [← List.nil_append (sized 2 offered.binderBlock)]
  apply hidLoop.bind
  rw [if_neg (by simpa using offered.nonempty), sized]
  apply (takes_readU16 hbinderFit).bind
  rw [if_neg (by omega)]
  apply (takes_slice rfl).bind_last
  apply hbinderLoop.bind_last
  dsimp only
  rw [if_neg (by simp [offered.paired])]
  exact .pure _

/-- Whatever is accepted is the wire form of an offer, and nothing behind it is read. -/
theorem parse_eq_ok_iff {psk : PreSharedKeyClientHello} {b b' : ParseBuffer} :
    parse N b = .ok psk b' ↔
      ∃ offered : OfferedPsks N, psk = offered.kept ∧ Reads b offered.wire b' := by
  constructor
  · intro h
    simp only [parse, bind_eq_ok, readU16_eq_ok] at h
    obtain ⟨n, b₁, ⟨hn, hr₁⟩, h⟩ := h
    split at h
    · simp at h
    simp only [bind_eq_ok, slice_eq_ok, within_eq_ok] at h
    obtain ⟨_, b₂, ⟨block, rfl, rfl, hr₂⟩, identities, _, ⟨rfl, d, hloop⟩, h⟩ := h
    obtain ⟨ids, hids, hd, hdend⟩ := identities_eq_ok.mp hloop
    obtain ⟨rfl, hcap⟩ := turns_keepsIdentity.mp hids
    have hblock : block = ids.flatMap PskIdentity.wire := by simpa [hdend] using hd.rest_eq
    split at h
    · simp at h
    next hne =>
      simp only [bind_eq_ok, readU16_eq_ok] at h
      obtain ⟨m, b₄, ⟨hm, hr₄⟩, h⟩ := h
      split at h
      · simp at h
      simp only [bind_eq_ok, slice_eq_ok, within_eq_ok] at h
      obtain ⟨_, b₅, ⟨block', rfl, rfl, hr₅⟩, ⟨binders, hashSize⟩, _, ⟨rfl, e, hloop'⟩, h⟩ := h
      obtain ⟨chunks, hbinders, he, heend⟩ := binders_eq_ok.mp hloop'
      obtain ⟨hchunks, heach, hcommon⟩ := turns_keepsBinder_append hbinders
      obtain rfl : binders = chunks := hchunks
      have hblock' : block' = binders.flatMap (sized 1) := by simpa [heend] using he.rest_eq
      split at h
      · simp at h
      next hpaired =>
        obtain ⟨rfl, rfl⟩ := EStateM.Result.ok.inj h
        simp only [List.nil_append, List.length_map, ne_eq, not_not, List.isEmpty_iff, List.map_eq_nil_iff,
          List.length_nil, Nat.zero_add, true_or, true_and] at hne hpaired hcap hcommon
        have hsome : binders ≠ [] := by
          rw [← List.length_pos_iff, hpaired, List.length_pos_iff]
          exact hne
        obtain ⟨hge, hlt, -⟩ := hcommon.resolve_left fun hnil => hsome hnil.1
        rw [hblock] at hn hr₁ hr₂
        rw [hblock'] at hm hr₄ hr₅
        refine ⟨⟨ids, binders, hashSize, hne, hcap.resolve_left hne, hpaired, heach, hge, hlt, hn, hm⟩,
          rfl, ?_⟩
        exact (hr₁.trans hr₂).trans (hr₄.trans hr₅)
  · rintro ⟨offered, rfl, hreads⟩
    exact (takes_parse offered).of_reads hreads

/-- The parser accepts exactly the inputs that start with an offer. It returns the identities and
binders of the offer in their order with the length the binders have, and moves over the offer. -/
theorem parse_accepts_grammar (N : Nat) (b : ParseBuffer) :
    ((∃ psk b', parse N b = .ok psk b') ↔
      ∃ (offered : OfferedPsks N) (rest : Bytes), b.rest = offered.wire ++ rest) ∧
    ∀ (offered : OfferedPsks N) (rest : Bytes), b.rest = offered.wire ++ rest →
      ∃ b', parse N b = .ok
          ⟨offered.identities.map PskIdentity.identity, offered.binders, offered.hashSize⟩ b' ∧
        b'.buffer = b.buffer ∧ b'.pos = b.pos + offered.wire.length := by
  have hreads : ∀ (offered : OfferedPsks N) (rest : Bytes), b.rest = offered.wire ++ rest →
      ∃ b', parse N b = .ok offered.kept b' ∧ Reads b offered.wire b' := by
    intro offered rest hrest
    obtain ⟨b', hr, -⟩ := exists_reads hrest
    exact ⟨b', parse_eq_ok_iff.mpr ⟨offered, rfl, hr⟩, hr⟩
  refine ⟨⟨?_, ?_⟩, ?_⟩
  · rintro ⟨psk, b', h⟩
    obtain ⟨offered, -, hr⟩ := parse_eq_ok_iff.mp h
    exact ⟨offered, b'.rest, hr.rest_eq⟩
  · rintro ⟨offered, rest, hrest⟩
    obtain ⟨b', h, -⟩ := hreads offered rest hrest
    exact ⟨offered.kept, b', h⟩
  · intro offered rest hrest
    obtain ⟨b', h, hr⟩ := hreads offered rest hrest
    exact ⟨b', h, hr.buffer_eq, hr.pos_eq⟩

/-- One identity of five bytes and one binder of 32. -/
def sampleOffer : OfferedPsks 4 where
  identities := [⟨[0x76, 0x61, 0x64, 0x65, 0x72], .zeros 4, by decide, by decide⟩]
  binders := [List.replicate 32 0xab]
  hashSize := 32
  nonempty := by decide
  capacity := by decide
  paired := rfl
  binder_length := by decide
  hashSize_ge := by decide
  hashSize_lt := by decide
  identities_fit := by decide
  binders_fit := by decide

theorem parse_sampleOffer : ∃ b', parse 4 (new sampleOffer.wire) =
      .ok ⟨[[0x76, 0x61, 0x64, 0x65, 0x72]], [List.replicate 32 0xab], 32⟩ b' ∧
    b'.buffer = sampleOffer.wire ∧ b'.pos = 0 + sampleOffer.wire.length :=
  (parse_accepts_grammar 4 (new sampleOffer.wire)).2 sampleOffer [] (List.append_nil _).symm

end PreSharedKeyClientHello

end GatoPskTls
