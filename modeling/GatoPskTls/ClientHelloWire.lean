import GatoPskTls.ClientHello
import GatoPskTls.OfferedPsks

/-!
# The ClientHello on the wire

What an accepted ClientHello looks like as bytes, independently of the parser:
the fixed fields, then a block of extensions of any type. From it follows when
the bytes before `bindersStartOffset` are exactly the bytes before the binders.
-/
namespace GatoPskTls

open Stateful BigEndian ParseBuffer

/-- An extension as it stands on the wire, whether or not its type is known. -/
structure RawExtension where
  type : Nat
  data : Bytes
  deriving DecidableEq, Repr

namespace RawExtension

def wire (e : RawExtension) : Bytes := bigEndian 2 e.type ++ sized 2 e.data

def Fits (e : RawExtension) : Prop := e.type < 256 ^ 2 ∧ e.data.length < 256 ^ 2

/-- What a group makes of one extension: nothing when the code point is unknown. -/
def interpret {α : Type} (group : ExtensionGroup α) (e : RawExtension) : Option α :=
  (ExtensionType.of e.type).bind fun t =>
    (group t).bind fun p => (outcome (p (new e.data))).toOption

end RawExtension

/-- Cut a block into its extensions; `fuel` bounds their number. -/
def splitExtensions : Nat → Bytes → List RawExtension
  | 0, _ => []
  | _, [] => []
  | n+1, block =>
      ⟨fromBigEndian (block.take 2), takeSized 2 (block.drop 2)⟩ ::
        splitExtensions n (dropSized 2 (block.drop 2))

namespace ClientHelloRef

/-- Behind the header, the version and the random stand three length-prefixed
blocks (session id, cipher suites, compression methods) and then the extensions. -/
def extensionBlock (msg : Bytes) : Bytes :=
  takeSized 2 (dropSized 1 (dropSized 2 (dropSized 1 (msg.drop 38))))

def wireExtensions (msg : Bytes) : List RawExtension :=
  splitExtensions (extensionBlock msg).length (extensionBlock msg)

/-- The length the handshake header announces, header included. -/
def messageLength (msg : Bytes) : Nat := 4 + fromBigEndian ((msg.drop 1).take 3)

/-- `PskBinderEntry binders<33..2^16-1>`. -/
def bindersWire (binders : List Bytes) : Bytes := sized 2 (binders.flatMap (sized 1))

/-- The message ends with the binder list, and the binder list is where it
belongs: at the end of a pre_shared_key extension that is the last on the wire. -/
structure BindersCloseMessage (msg : Bytes) (hello : ClientHelloRef)
    (psk : PreSharedKeyClientHello) : Prop where
  split : msg.take (messageLength msg) =
    msg.take hello.bindersStartOffset ++ bindersWire psk.binders
  offset_le : hello.bindersStartOffset ≤ msg.length
  last : ∃ earlier identities, wireExtensions msg = earlier ++
    [⟨ExtensionType.preSharedKey.toU16, sized 2 identities ++ bindersWire psk.binders⟩]

/-- The last extension on the wire is a pre_shared_key whose data is an identity
block and a binder block, with nothing behind them. -/
def PskExtensionLast (msg : Bytes) : Prop :=
  ∃ earlier identities binders, wireExtensions msg = earlier ++
    [⟨ExtensionType.preSharedKey.toU16, sized 2 identities ++ sized 2 binders⟩]

end ClientHelloRef

section Extensions

variable {α : Type} {group : ExtensionGroup α}

theorem attempt_eq_ok {ε ε' : Type} {p : Parser ε α} {b b' : ParseBuffer} {r : Except ε α} :
    (attempt p : Parser ε' _) b = .ok r b' ↔ outcome (p b) = r ∧ after (p b) = b' := by
  unfold attempt
  cases h : p b with
  | ok a c => simp
  | error e c => simp

theorem readEnum16_eq_ok {of : Nat → Option α} {a : α} {b b' : ParseBuffer} :
    readEnum16 of b = .ok a b' ↔ ∃ v, v < 256 ^ 2 ∧ of v = some a ∧ Reads b (bigEndian 2 v) b' := by
  simp only [readEnum16, bind_eq_ok, readU16_eq_ok, known_eq_ok]
  constructor
  · rintro ⟨v, _, ⟨hv, hr⟩, hof, rfl⟩
    exact ⟨v, hv, hof, hr⟩
  · rintro ⟨v, hv, hof, hr⟩
    exact ⟨v, b', ⟨hv, hr⟩, hof, rfl⟩

theorem readEnum16_invalid {of : Nat → Option α} {b b' : ParseBuffer} :
    readEnum16 of b = .error .invalidData b' →
      ∃ v, v < 256 ^ 2 ∧ of v = none ∧ Reads b (bigEndian 2 v) b' := by
  intro h
  rcases bind_eq_error.mp h with h | ⟨v, u, hread, h⟩
  · rcases bind_eq_error.mp h with h | ⟨w, u, -, h⟩
    · simp [advance_eq_error] at h
    · simp at h
  · obtain ⟨hv, hr⟩ := readU16_eq_ok.mp hread
    cases hof : of v with
    | some c => simp [hof] at h
    | none =>
        simp only [hof, throw_apply, EStateM.Result.error.injEq] at h
        obtain ⟨-, rfl⟩ := h
        exact ⟨v, hv, hof, hr⟩

theorem framed_reads {b b₁ b₂ b₃ s : ParseBuffer} {v n : Nat} (h₁ : Reads b (bigEndian 2 v) b₁)
    (h₂ : readU16 b₁ = .ok n b₂) (h₃ : slice n b₂ = .ok s b₃) :
    ∃ data, s = new data ∧ data.length < 256 ^ 2 ∧ Reads b (RawExtension.wire ⟨v, data⟩) b₃ := by
  obtain ⟨hn, hr₂⟩ := readU16_eq_ok.mp h₂
  obtain ⟨data, rfl, rfl, hr₃⟩ := slice_eq_ok.mp h₃
  exact ⟨data, rfl, hn, h₁.trans (hr₂.trans hr₃)⟩

theorem ExtensionGroup.parse_eq_ok {ext : α} {b b' : ParseBuffer}
    (h : group.parse b = .ok ext b') :
    ∃ e : RawExtension, e.Fits ∧ Reads b e.wire b' ∧ e.interpret group = some ext := by
  simp only [ExtensionGroup.parse, bind_eq_ok, mapError_eq_ok, attempt_eq_ok] at h
  obtain ⟨r, b₁, ⟨hout, hafter⟩, n, b₂, h₂, s, b₃, h₃, h⟩ := h
  cases r with
  | error e => cases e <;> simp at h
  | ok t =>
      obtain ⟨v, hv, hof, hr⟩ := readEnum16_eq_ok.mp (hafter ▸ outcome_eq_ok hout)
      obtain ⟨data, rfl, hd, hw⟩ := framed_reads hr h₂ h₃
      cases hg : group t with
      | none => simp [hg] at h
      | some p =>
          simp only [hg, within_eq_ok, mapError_eq_ok] at h
          obtain ⟨rfl, d, hp⟩ := h
          refine ⟨⟨v, data⟩, ⟨hv, hd⟩, hw, ?_⟩
          simp [RawExtension.interpret, hof, hg, hp, Except.toOption]

theorem ExtensionGroup.parse_unknown {b b' : ParseBuffer}
    (h : group.parse b = .error .unknownExtensionType b') :
    ∃ e : RawExtension, e.Fits ∧ Reads b e.wire b' ∧ ExtensionType.of e.type = none := by
  simp only [ExtensionGroup.parse, bind_eq_error, mapError_eq_error, attempt_eq_ok] at h
  rcases h with h | ⟨r, b₁, ⟨hout, hafter⟩, h⟩
  · unfold attempt at h
    split at h <;> cases h
  rcases h with ⟨e, -, he⟩ | ⟨n, b₂, h₂, h⟩
  · cases he
  rcases h with ⟨e, -, he⟩ | ⟨s, b₃, h₃, h⟩
  · cases he
  rw [mapError_eq_ok] at h₂ h₃
  cases r with
  | error e =>
      cases e with
      | invalidData =>
          obtain ⟨v, hv, hof, hr⟩ := readEnum16_invalid (hafter ▸ outcome_eq_error hout)
          obtain ⟨data, rfl, hd, hw⟩ := framed_reads hr h₂ h₃
          simp only [throw_apply, EStateM.Result.error.injEq] at h
          obtain ⟨-, rfl⟩ := h
          exact ⟨⟨v, data⟩, ⟨hv, hd⟩, hw, hof⟩
      | insufficientBytes => simp at h
      | insufficientSpace => simp at h
  | ok t =>
      cases hg : group t with
      | none => simp [hg, fatal] at h
      | some p =>
          simp only [hg] at h
          unfold within mapError at h
          cases hp : p s <;> simp [hp] at h

/-- Both ways an extension is passed over: it is interpreted, or its code point
is unknown. Either way the cursor moved over one raw extension. -/
theorem ExtensionGroup.vectorStep_eq_ok {N : Nat} {acc acc' : List α} {b b' : ParseBuffer}
    (h : group.vectorStep N acc b = .ok acc' b') :
    ∃ e : RawExtension, e.Fits ∧ Reads b e.wire b' ∧
      acc' = acc ++ (e.interpret group).toList ∧
      (∀ t, ExtensionType.of e.type = some t → (e.interpret group).isSome) := by
  simp only [ExtensionGroup.vectorStep, bind_eq_ok, attempt_eq_ok] at h
  obtain ⟨r, b₁, ⟨hout, hafter⟩, h⟩ := h
  cases r with
  | ok ext =>
      obtain ⟨e, hf, hr, hi⟩ := parse_eq_ok (hafter ▸ outcome_eq_ok hout)
      obtain ⟨-, rfl, rfl⟩ := pushWithin_eq_ok.mp h
      exact ⟨e, hf, hr, by simp [hi], by simp [hi]⟩
  | error err =>
      by_cases hu : err = .unknownExtensionType
      · subst hu
        obtain ⟨e, hf, hr, hof⟩ := parse_unknown (hafter ▸ outcome_eq_error hout)
        simp only [pure_apply, EStateM.Result.ok.injEq] at h
        obtain ⟨rfl, rfl⟩ := h
        exact ⟨e, hf, hr, by simp [RawExtension.interpret, hof], by simp [hof]⟩
      · cases err <;> first | exact absurd rfl hu | simp at h

theorem RawExtension.wire_length (e : RawExtension) : e.wire.length = 4 + e.data.length := by
  simp only [wire, List.length_append, bigEndian_length, sized_length]
  omega

/-- A parsed vector is the interpretation of the raw extensions of its block. -/
theorem ExtensionGroup.parseVector_eq_ok {N : Nat} {exts : List α} {b b' : ParseBuffer}
    (h : group.parseVector N b = .ok exts b') :
    ∃ raw : List RawExtension, (∀ e ∈ raw, e.Fits) ∧
      (raw.flatMap RawExtension.wire).length < 256 ^ 2 ∧
      Reads b (sized 2 (raw.flatMap RawExtension.wire)) b' ∧
      exts = raw.filterMap (RawExtension.interpret group) ∧
      (∀ e ∈ raw, ∀ t, ExtensionType.of e.type = some t → (e.interpret group).isSome) := by
  simp only [parseVector, bind_eq_ok, mapError_eq_ok, readU16_eq_ok, slice_eq_ok,
    within_eq_ok] at h
  obtain ⟨n, b₁, ⟨hn, hr₁⟩, s, b₂, ⟨block, rfl, rfl, hr₂⟩, rfl, d, hloop⟩ := h
  have hprogress : ∀ (acc : List α) c acc' c', group.vectorStep N acc c = .ok acc' c' →
      c'.remaining < c.remaining := by
    intro acc c acc' c' hs
    obtain ⟨e, -, hr, -⟩ := vectorStep_eq_ok hs
    have := hr.remaining_eq
    rw [e.wire_length] at this
    omega
  -- what has been read so far is a list of raw extensions, interpreted into the accumulator
  obtain ⟨⟨raw, hfits, hreads, hacc, hknown⟩, hend⟩ := whileNotEmpty_eq_ok
    (fun acc c => ∃ raw : List RawExtension, (∀ e ∈ raw, e.Fits) ∧
      Reads (new block) (raw.flatMap RawExtension.wire) c ∧
      acc = raw.filterMap (RawExtension.interpret group) ∧
      ∀ e ∈ raw, ∀ t, ExtensionType.of e.type = some t → (e.interpret group).isSome)
    hprogress
    (by
      rintro acc c acc' c' ⟨raw, hfits, hreads, rfl, hknown⟩ hs
      obtain ⟨e, hf, hr, rfl, hk⟩ := vectorStep_eq_ok hs
      refine ⟨raw ++ [e], ?_, ?_, ?_, ?_⟩
      · simpa [or_imp, forall_and] using ⟨hfits, hf⟩
      · simpa using hreads.trans hr
      · cases hi : e.interpret group <;> simp [hi]
      · simpa [or_imp, forall_and] using ⟨hknown, hk⟩)
    (Nat.le_refl _) ⟨[], by simp, .refl _, rfl, by simp⟩ hloop
  have hblock : block = raw.flatMap RawExtension.wire := by
    simpa [hend] using hreads.rest_eq
  rw [hblock] at hn hr₁ hr₂
  exact ⟨raw, hfits, hn, hr₁.trans hr₂, hacc, hknown⟩

theorem splitExtensions_wire {raw : List RawExtension} (hf : ∀ e ∈ raw, e.Fits) :
    splitExtensions (raw.flatMap RawExtension.wire).length (raw.flatMap RawExtension.wire) =
      raw := by
  suffices ∀ n, (raw.flatMap RawExtension.wire).length ≤ n →
      splitExtensions n (raw.flatMap RawExtension.wire) = raw from this _ (Nat.le_refl _)
  induction raw with
  | nil => intro n _; cases n <;> rfl
  | cons e raw ih =>
      intro n hn
      obtain ⟨he, hrest⟩ := List.forall_mem_cons.mp hf
      have hlen := e.wire_length
      rw [List.flatMap_cons, List.length_append] at hn
      obtain ⟨m, rfl⟩ : ∃ m, n = m + 1 := ⟨n - 1, by omega⟩
      obtain ⟨x, xs, hx⟩ : ∃ x xs, e.wire ++ raw.flatMap RawExtension.wire = x :: xs := by
        simp [RawExtension.wire]
      rw [List.flatMap_cons, hx, splitExtensions, ← hx, RawExtension.wire, List.append_assoc,
        List.take_left' (bigEndian_length 2 _), List.drop_left' (bigEndian_length 2 _),
        takeSized_sized he.2, dropSized_sized he.2, fromBigEndian_bigEndian,
        Nat.mod_eq_of_lt he.1, ih hrest m (by omega)]
      · simp

end Extensions

namespace PreSharedKeyClientHello

/-- Accepted data is an identity block and the wire form of the binders; what
follows them is not looked at. -/
theorem parse_eq_ok {N : Nat} {data : Bytes} {psk : PreSharedKeyClientHello} {d : ParseBuffer}
    (h : parse N (new data) = .ok psk d) :
    ∃ identities leftover, identities.length < 256 ^ 2 ∧
      (psk.binders.flatMap (sized 1)).length < 256 ^ 2 ∧
      data = sized 2 identities ++ (ClientHelloRef.bindersWire psk.binders ++ leftover) := by
  obtain ⟨offered, rfl, hr⟩ := parse_eq_ok_iff.mp h
  refine ⟨offered.identityBlock, d.rest, offered.identities_fit, offered.binders_fit, ?_⟩
  have hdata := hr.rest_eq
  rw [new_rest, OfferedPsks.wire, List.append_assoc] at hdata
  exact hdata

end PreSharedKeyClientHello

namespace ClientHelloRef

/-- What `parse` has read when it accepts, field by field. -/
structure Layout (msg : Bytes) (hello : ClientHelloRef) where
  raw : List RawExtension
  trailing : Bytes
  bodyLen : Nat
  version_lt : hello.legacyVersion < 256 ^ 2
  bodyLen_lt : bodyLen < 256 ^ 3
  sessionId_le : hello.legacySessionId.length ≤ 32
  suites_lt : hello.cipherSuites.length < 256 ^ 2
  compression_lt : hello.legacyCompressionMethods.length < 256 ^ 1
  raw_fits : ∀ e ∈ raw, e.Fits
  block_lt : (raw.flatMap RawExtension.wire).length < 256 ^ 2
  message : msg = [1] ++ (bigEndian 3 bodyLen ++ (bigEndian 2 hello.legacyVersion ++
    (hello.random.val ++ (sized 1 hello.legacySessionId ++ (sized 2 hello.cipherSuites ++
      (sized 1 hello.legacyCompressionMethods ++
        (sized 2 (raw.flatMap RawExtension.wire) ++ trailing)))))))
  length_eq : msg.length = 4 + bodyLen + trailing.length
  interpreted : hello.extensions = raw.filterMap (RawExtension.interpret ClientHelloExtension.group)
  known : ∀ e ∈ raw, ∀ t, ExtensionType.of e.type = some t →
    (e.interpret ClientHelloExtension.group).isSome
  offset : findBindersStart hello.extensions (4 + bodyLen) = .ok hello.bindersStartOffset

theorem parseHeader_eq_ok {total : Nat} {b b' : ParseBuffer}
    (h : parseHeader b = .ok total b') :
    ∃ n, n < 256 ^ 3 ∧ total = b'.pos + n ∧ Reads b ([1] ++ bigEndian 3 n) b' := by
  simp only [parseHeader, orInvalid, bind_eq_ok, mapError_eq_ok, readU8_eq_ok] at h
  obtain ⟨t, b₁, hr₁, h⟩ := h
  split at h
  · simp at h
  next ht =>
    simp only [bind_eq_ok, mapError_eq_ok, readU24_eq_ok, offset_apply, pure_apply,
      EStateM.Result.ok.injEq] at h
    obtain ⟨n, b₂, ⟨hn, hr₂⟩, pos, b₃, ⟨rfl, rfl⟩, rfl, rfl⟩ := h
    have ht : t = 1 := not_not.mp ht
    exact ⟨n, hn, rfl, ht ▸ hr₁.trans hr₂⟩

theorem parseSessionId_eq_ok {w : Bytes} {b b' : ParseBuffer}
    (h : parseSessionId b = .ok w b') : w.length ≤ 32 ∧ Reads b (sized 1 w) b' := by
  simp only [parseSessionId, orInvalid, bind_eq_ok, mapError_eq_ok, readU8_eq_ok] at h
  obtain ⟨n, b₁, hr₁, h⟩ := h
  split at h
  · simp at h
  · simp only [bind_eq_ok, mapError_eq_ok, slice_eq_ok, pure_apply,
      EStateM.Result.ok.injEq] at h
    obtain ⟨s, b₂, ⟨w, rfl, hw, hr₂⟩, rfl, rfl⟩ := h
    rw [new_buffer, sized_one hw]
    exact ⟨by omega, hr₁.trans hr₂⟩

theorem parseCipherSuites_eq_ok {w : Bytes} {b b' : ParseBuffer}
    (h : parseCipherSuites b = .ok w b') : w.length < 256 ^ 2 ∧ Reads b (sized 2 w) b' := by
  simp only [parseCipherSuites, orInvalid, bind_eq_ok, mapError_eq_ok, readU16_eq_ok] at h
  obtain ⟨n, b₁, ⟨hn, hr₁⟩, h⟩ := h
  split at h
  · simp at h
  · simp only [bind_eq_ok, mapError_eq_ok, slice_eq_ok, pure_apply,
      EStateM.Result.ok.injEq] at h
    obtain ⟨s, b₂, ⟨w, rfl, rfl, hr₂⟩, rfl, rfl⟩ := h
    exact ⟨hn, hr₁.trans hr₂⟩

theorem parseCompressionMethods_eq_ok {w : Bytes} {b b' : ParseBuffer}
    (h : parseCompressionMethods b = .ok w b') : w.length < 256 ^ 1 ∧ Reads b (sized 1 w) b' := by
  simp only [parseCompressionMethods, orInvalid, bind_eq_ok, mapError_eq_ok, readU8_eq_ok] at h
  obtain ⟨n, b₁, hr₁, h⟩ := h
  split at h
  · simp at h
  · simp only [bind_eq_ok, mapError_eq_ok, slice_eq_ok, pure_apply,
      EStateM.Result.ok.injEq] at h
    obtain ⟨s, b₂, ⟨w, rfl, hw, hr₂⟩, rfl, rfl⟩ := h
    rw [new_buffer, sized_one hw]
    have := n.toNat_lt
    exact ⟨by omega, hr₁.trans hr₂⟩

theorem parse_eq_ok {NEXT : Nat} {msg : Bytes} {hello : ClientHelloRef} {b : ParseBuffer}
    (h : parse NEXT (new msg) = .ok hello b) :
    ∃ l : Layout msg hello, b.rest = l.trailing ∧ b.pos = 4 + l.bodyLen := by
  simp only [parse, bind_eq_ok] at h
  obtain ⟨total, b₁, h₁, version, b₂, h₂, random, b₃, h₃, sid, b₄, h₄, suites, b₅, h₅,
    comp, b₆, h₆, exts, b₇, h₇, pos, b₈, h₈, h⟩ := h
  simp only [offset_apply, EStateM.Result.ok.injEq] at h₈
  obtain ⟨rfl, rfl⟩ := h₈
  split at h
  · simp at h
  next hpos =>
    simp only [bind_eq_ok, fromResult_eq_ok, pure_apply, EStateM.Result.ok.injEq] at h
    obtain ⟨start, b₉, ⟨hstart, rfl⟩, rfl, rfl⟩ := h
    obtain ⟨n, hn, rfl, hr₁⟩ := parseHeader_eq_ok h₁
    obtain ⟨hv, hr₂⟩ := readU16_eq_ok.mp (mapError_eq_ok.mp h₂)
    have hr₃ := fill_eq_ok.mp (mapError_eq_ok.mp h₃)
    obtain ⟨hsid, hr₄⟩ := parseSessionId_eq_ok h₄
    obtain ⟨hcs, hr₅⟩ := parseCipherSuites_eq_ok h₅
    obtain ⟨hcm, hr₆⟩ := parseCompressionMethods_eq_ok h₆
    obtain ⟨raw, hfits, hblock, hr₇, hexts, hknown⟩ := ExtensionGroup.parseVector_eq_ok h₇
    have hb₁ : b₁.pos = 4 := by rw [hr₁.pos_eq]; simp
    have hend : b₉.pos = 4 + n := by rw [not_not.mp hpos, hb₁]
    have hmsg := ((((((hr₁.trans hr₂).trans hr₃).trans hr₄).trans hr₅).trans hr₆).trans hr₇)
    have hrest := hmsg.rest_eq
    rw [new_rest] at hrest
    have hlen : msg.length = 4 + n + b₉.rest.length := by
      have hle := b₉.pos_le
      rw [rest_length, remaining, hmsg.buffer_eq, new_buffer] at *
      omega
    rw [hb₁] at hstart
    exact ⟨⟨raw, b₉.rest, n, hv, hn, hsid, hcs, hcm, hfits, hblock, by simpa using hrest, hlen,
      hexts, hknown, hstart⟩, rfl, hend⟩

theorem Layout.extensionBlock_eq {msg : Bytes} {hello : ClientHelloRef} (l : Layout msg hello) :
    extensionBlock msg = l.raw.flatMap RawExtension.wire := by
  have hfixed : ([1] ++ (bigEndian 3 l.bodyLen ++ (bigEndian 2 hello.legacyVersion ++
      hello.random.val))).length = 38 := by
    simp [hello.random.property]
  have hsid := l.sessionId_le
  conv_lhs => rw [extensionBlock, l.message]
  rw [show ∀ x y z w v : Bytes, x ++ (y ++ (z ++ (w ++ v))) = (x ++ (y ++ (z ++ w))) ++ v by simp,
    List.drop_left' hfixed, dropSized_sized (by omega), dropSized_sized l.suites_lt,
    dropSized_sized l.compression_lt, takeSized_sized l.block_lt]

theorem Layout.wireExtensions_eq {msg : Bytes} {hello : ClientHelloRef} (l : Layout msg hello) :
    wireExtensions msg = l.raw := by
  rw [wireExtensions, l.extensionBlock_eq, splitExtensions_wire l.raw_fits]

theorem Layout.messageLength_eq {msg : Bytes} {hello : ClientHelloRef} (l : Layout msg hello) :
    messageLength msg = 4 + l.bodyLen := by
  rw [messageLength]
  conv_lhs => rw [l.message]
  rw [List.singleton_append, List.drop_succ_cons, List.drop_zero,
    List.take_left' (bigEndian_length 3 _), fromBigEndian_bigEndian, Nat.mod_eq_of_lt l.bodyLen_lt]

theorem Layout.message_block {msg : Bytes} {hello : ClientHelloRef} (l : Layout msg hello) :
    ∃ before, msg = before ++ (sized 2 (l.raw.flatMap RawExtension.wire) ++ l.trailing) :=
  ⟨[1] ++ (bigEndian 3 l.bodyLen ++ (bigEndian 2 hello.legacyVersion ++ (hello.random.val ++
    (sized 1 hello.legacySessionId ++ (sized 2 hello.cipherSuites ++
      sized 1 hello.legacyCompressionMethods))))), l.message.trans (by simp only [List.append_assoc])⟩

theorem bindersWire_length (binders : List Bytes) :
    (bindersWire binders).length = bindersWireLen binders := by
  suffices ∀ n, binders.foldl (fun wireLen binder => wireLen + (1 + binder.length)) n =
      n + (binders.flatMap (sized 1)).length by
    rw [bindersWire, sized_length, bindersWireLen, this]
  induction binders with
  | nil => intro n; rfl
  | cons binder binders ih =>
      intro n
      rw [List.foldl_cons, ih, List.flatMap_cons, List.length_append, sized_length]
      omega

theorem mem_pskIndices {exts : List ClientHelloExtension} {i : Nat} :
    i ∈ pskIndices exts ↔ ∃ psk, exts[i]? = some (.preSharedKey psk) := by
  simp only [pskIndices, List.mem_filterMap, Prod.exists, List.mem_zipIdx_iff_getElem?]
  constructor
  · rintro ⟨ext, j, hj, h⟩
    cases ext <;> simp only [Option.some.injEq, reduceCtorEq] at h
    exact ⟨_, h ▸ hj⟩
  · rintro ⟨psk, hi⟩
    exact ⟨_, i, hi, rfl⟩

/-- With a pre_shared_key among the known extensions, it is the last of them and the
offset lies before the end by the wire size of its binders. -/
theorem findBindersStart_eq_ok {exts : List ClientHelloExtension} {total start : Nat}
    {psk : PreSharedKeyClientHello} (h : findBindersStart exts total = .ok start)
    (hpsk : .preSharedKey psk ∈ exts) :
    exts.getLast? = some (.preSharedKey psk) ∧ start + bindersWireLen psk.binders = total := by
  obtain ⟨i, hi⟩ := List.mem_iff_getElem?.mp hpsk
  have hmem : i ∈ pskIndices exts := mem_pskIndices.mpr ⟨psk, hi⟩
  simp only [findBindersStart] at h
  split at h
  · simp at h
  next hone =>
    -- the only index is that of `psk`
    have hindices : pskIndices exts = [i] := by
      match hm : pskIndices exts with
      | [] => simp [hm] at hmem
      | [j] => rw [hm, List.mem_singleton] at hmem; rw [hmem]
      | _ :: _ :: _ => simp [hm] at hone
    simp only [hindices, List.head?_cons] at h
    split at h
    · simp at h
    next hlast =>
      simp only [hi] at h
      split at h
      · simp at h
      next hle =>
        simp only [Except.ok.injEq] at h
        refine ⟨?_, by omega⟩
        rw [List.getLast?_eq_getElem?, ← not_not.mp hlast, hi]

theorem interpret_preSharedKey {e : RawExtension} {psk : PreSharedKeyClientHello}
    (h : e.interpret ClientHelloExtension.group = some (.preSharedKey psk)) :
    ∃ d, PreSharedKeyClientHello.parse 4 (new e.data) = .ok psk d := by
  simp only [RawExtension.interpret, Option.bind_eq_some_iff] at h
  obtain ⟨t, -, p, hp, h⟩ := h
  cases hout : p (new e.data) with
  | error err d => simp [hout, Except.toOption] at h
  | ok ext d =>
      have hext : ext = .preSharedKey psk := by simpa [hout, Except.toOption] using h
      subst hext
      cases t with
      | preSharedKey =>
          cases hp
          obtain ⟨a, d', hparse, hout⟩ := bind_eq_ok.mp hout
          cases hout
          exact ⟨_, hparse⟩
      | _ =>
          cases hp <;>
          · obtain ⟨a, d', -, hout⟩ := bind_eq_ok.mp hout
            cases hout

/-- The bytes before `bindersStartOffset` are everything before the binders exactly
when pre_shared_key closes the extension block and the binders close its data. -/
theorem binders_close_message_iff {NEXT : Nat} {msg : Bytes} {hello : ClientHelloRef}
    {b : ParseBuffer} {psk : PreSharedKeyClientHello}
    (hparse : parse NEXT (new msg) = .ok hello b)
    (hpsk : .preSharedKey psk ∈ hello.extensions) :
    BindersCloseMessage msg hello psk ↔ PskExtensionLast msg := by
  constructor
  · rintro ⟨-, -, earlier, identities, hlast⟩
    exact ⟨earlier, identities, _, hlast⟩
  rintro ⟨earlier, identities, block, hwire⟩
  obtain ⟨l, htrailing, hpos⟩ := parse_eq_ok hparse
  obtain ⟨hlastKnown, hstart⟩ := findBindersStart_eq_ok l.offset hpsk
  have hraw : l.raw = earlier ++
      [⟨ExtensionType.preSharedKey.toU16, sized 2 identities ++ sized 2 block⟩] := by
    rw [← l.wireExtensions_eq, hwire]
  set e : RawExtension := ⟨ExtensionType.preSharedKey.toU16, sized 2 identities ++ sized 2 block⟩
  have hmem : e ∈ l.raw := by rw [hraw]; simp
  -- the last extension on the wire is known, so it is also the last one parsed
  obtain ⟨ext, hext⟩ := Option.isSome_iff_exists.mp (l.known e hmem .preSharedKey rfl)
  have hparsed : hello.extensions =
      earlier.filterMap (RawExtension.interpret ClientHelloExtension.group) ++ [ext] := by
    rw [l.interpreted, hraw, List.filterMap_append]
    simp [hext]
  rw [hparsed, List.getLast?_append_cons, List.getLast?_singleton, Option.some.injEq] at hlastKnown
  obtain ⟨d, hdata⟩ := interpret_preSharedKey (hext.trans (congrArg some hlastKnown))
  obtain ⟨ids, leftover, hids, hbinders, hsplit⟩ := PreSharedKeyClientHello.parse_eq_ok hdata
  have hfit := (l.raw_fits e hmem).2
  simp only [e, List.length_append, sized_length] at hfit
  obtain ⟨rfl, hrest⟩ := sized_append_inj (by omega) hids hsplit
  obtain ⟨hblock, -⟩ := @sized_append_inj 2 block [] _ leftover (by omega) hbinders
    (by simpa [bindersWire] using hrest)
  have hclose : sized 2 block = bindersWire psk.binders := by rw [hblock, bindersWire]
  have hsuffix : bindersWire psk.binders <:+ sized 2 (l.raw.flatMap RawExtension.wire) := by
    have hdata : bindersWire psk.binders <:+ e.data := hclose ▸ List.suffix_append _ _
    have hwire : e.data <:+ e.wire := (List.suffix_append _ _).trans (List.suffix_append _ _)
    have hblock : e.wire <:+ l.raw.flatMap RawExtension.wire := by
      rw [hraw, List.flatMap_append, List.flatMap_singleton]
      exact List.suffix_append _ _
    exact hdata.trans (hwire.trans (hblock.trans (List.suffix_append _ _)))
  obtain ⟨before, hmsg⟩ : ∃ before, msg = before ++ (bindersWire psk.binders ++ l.trailing) := by
    obtain ⟨before, hmsg⟩ := l.message_block
    obtain ⟨inner, hinner⟩ := hsuffix
    exact ⟨before ++ inner, hmsg.trans (by rw [← hinner]; simp only [List.append_assoc])⟩
  have hlength := l.length_eq
  rw [← bindersWire_length] at hstart
  have hoffset : hello.bindersStartOffset = before.length := by
    have := congrArg List.length hmsg
    simp only [List.length_append] at this
    omega
  refine ⟨?_, by omega, earlier, identities, by rw [hwire, ← hclose]⟩
  rw [l.messageLength_eq, ← hstart, hoffset, ← List.length_append]
  conv_lhs => rw [hmsg, ← List.append_assoc, List.take_left]
  rw [hmsg, List.take_left]

/-- A ClientHello message with the given fields, offering one cipher suite. -/
def helloMessage (random : GenericArray 32) (sessionId : Bytes) (exts : List RawExtension) : Bytes :=
  [1] ++ sized 3 ([3, 3] ++ random.val ++ sized 1 sessionId ++ sized 2 [0x13, 0x01] ++ sized 1 [0] ++
    sized 2 (exts.flatMap RawExtension.wire))

/-- The data of a pre_shared_key extension with one identity and one binder. -/
def offeredPsk (identity binder : Bytes) : Bytes :=
  sized 2 (sized 2 identity ++ [0, 0, 0, 0]) ++ bindersWire [binder]

def plainExtensions (binder : Bytes) : List RawExtension :=
  [⟨43, [2, 3, 4]⟩, ⟨45, [1, 0]⟩, ⟨41, offeredPsk [0x61] binder⟩]

/-- The same hello with an extension of unknown type behind pre_shared_key. -/
def shiftedHello : Bytes :=
  helloMessage (.zeros 32) [] (plainExtensions (List.replicate 32 7) ++ [⟨0xff00, [1, 2, 3]⟩])

/-- The hello that `shiftedHello` is parsed into: the unknown extension has left no
trace, and the offset points seven bytes into the binder list. -/
def shiftedHelloRef : ClientHelloRef where
  legacyVersion := 0x0303
  random := .zeros 32
  legacySessionId := []
  cipherSuites := [0x13, 0x01]
  legacyCompressionMethods := [0]
  extensions := [.supportedVersions ⟨[TLS13]⟩, .pskKeyExchangeModes ⟨[.pskKe]⟩,
    .preSharedKey ⟨[[0x61]], [List.replicate 32 7], 32⟩]
  bindersStartOffset := 80

theorem shiftedHello_parsed_past_binders :
    (∃ b, parse 16 (new shiftedHello) = .ok shiftedHelloRef b) ∧
      .preSharedKey ⟨[[0x61]], [List.replicate 32 7], 32⟩ ∈ shiftedHelloRef.extensions ∧
      ¬ BindersCloseMessage shiftedHello shiftedHelloRef
        ⟨[[0x61]], [List.replicate 32 7], 32⟩ := by
  refine ⟨⟨⟨shiftedHello.length, shiftedHello, Nat.le_refl _⟩, by decide +kernel⟩,
    by decide +kernel, fun h => ?_⟩
  exact absurd h.split (by decide +kernel)

def plainHello : Bytes := helloMessage (.zeros 32) [] (plainExtensions (List.replicate 32 7))

theorem parse_plainHello : parse 16 (new plainHello) =
    .ok { shiftedHelloRef with bindersStartOffset := 73 }
      ⟨plainHello.length, plainHello, Nat.le_refl _⟩ := by
  decide +kernel

theorem plainHello_binders_close_message :
    ∃ hello b psk, parse 16 (new plainHello) = .ok hello b ∧ .preSharedKey psk ∈ hello.extensions ∧
      BindersCloseMessage plainHello hello psk := by
  have hpsk : .preSharedKey ⟨[[0x61]], [List.replicate 32 7], 32⟩ ∈ shiftedHelloRef.extensions := by
    decide +kernel
  refine ⟨_, _, _, parse_plainHello, hpsk, (binders_close_message_iff parse_plainHello hpsk).mpr ?_⟩
  exact ⟨[⟨43, [2, 3, 4]⟩, ⟨45, [1, 0]⟩], sized 2 [0x61] ++ [0, 0, 0, 0],
    sized 1 (List.replicate 32 7), by decide +kernel⟩

end ClientHelloRef

end GatoPskTls
