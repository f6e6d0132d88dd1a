import GatoPskTls.ClientHelloWire
import GatoPskTls.ParserSpec

/-!
# ClientHello messages made of given extensions

The answer of `ClientHelloRef.parse` to a message with given fields and a given list of
raw extensions, as a fold over that list. `withExtensions` exchanges the extensions of a
message and adjusts the lengths around them.
-/
namespace GatoPskTls

open Stateful BigEndian ParseBuffer

section Extensions

variable {α : Type} {group : ExtensionGroup α} {N : Nat} {e : RawExtension}

namespace RawExtension

/-- One extension, as the group answers it. -/
def read (group : ExtensionGroup α) (e : RawExtension) : Except TlsError α :=
  match ExtensionType.of e.type with
  | none => .error .unknownExtensionType
  | some t =>
      match group t with
      | none => .error (fatal .illegalParameter)
      | some p => (outcome (p (new e.data))).mapError fun _ => .decodeError

/-- One turn of `parse_vector`. -/
def enroll (group : ExtensionGroup α) (N : Nat) (acc : List α) (e : RawExtension) :
    Except TlsError (List α) :=
  match e.read group with
  | .ok ext => if acc.length < N then .ok (acc ++ [ext]) else .error .decodeError
  | .error .unknownExtensionType => .ok acc
  | .error err => .error err

/-- A code point that is known stands for an extension the group accepts. -/
def Accepted (group : ExtensionGroup α) (e : RawExtension) : Prop :=
  ∀ t, ExtensionType.of e.type = some t → (e.interpret group).isSome

theorem read_of_interpret {ext : α} (h : e.interpret group = some ext) :
    e.read group = .ok ext := by
  simp only [interpret, Option.bind_eq_some_iff] at h
  obtain ⟨t, ht, p, hp, h⟩ := h
  simp only [read, ht, hp]
  cases hout : outcome (p (new e.data)) with
  | error err => simp [hout, Except.toOption] at h
  | ok a =>
      simp only [hout, Except.toOption, Option.some.injEq] at h
      rw [h, mapError_ok_eq]

theorem interpret_of_read {ext : α} (h : e.read group = .ok ext) :
    e.interpret group = some ext := by
  simp only [read] at h
  simp only [interpret]
  cases ht : ExtensionType.of e.type with
  | none => simp [ht] at h
  | some t =>
      simp only [ht] at h
      cases hp : group t with
      | none => simp [hp] at h
      | some p =>
          simp only [hp] at h
          cases hout : outcome (p (new e.data)) with
          | error err => simp [hout] at h
          | ok a => simpa [hp, hout, Except.toOption] using h

theorem read_of_refused {t : ExtensionType} (ht : ExtensionType.of e.type = some t)
    (h : e.interpret group = none) :
    ∃ err, e.read group = .error err ∧ err ≠ .unknownExtensionType := by
  simp only [interpret, ht, Option.bind_some] at h
  simp only [read, ht]
  cases hp : group t with
  | none => exact ⟨_, rfl, by simp [fatal]⟩
  | some p =>
      simp only [hp, Option.bind_some] at h
      cases hout : outcome (p (new e.data)) with
      | ok a => simp [hout, Except.toOption] at h
      | error err => exact ⟨.decodeError, by simp only [hout, mapError_error_eq], by simp⟩

theorem enroll_of_error {err : TlsError} (h : e.read group = .error err)
    (hne : err ≠ .unknownExtensionType) (acc : List α) : e.enroll group N acc = .error err := by
  unfold enroll
  rw [h]
  cases err <;> first | rfl | exact absurd rfl hne

theorem enroll_of_unknown (h : ExtensionType.of e.type = none) (acc : List α) :
    e.enroll group N acc = .ok acc := by
  simp only [enroll, read, h]

theorem enroll_eq_ok {acc acc' : List α} (hacc : acc.length ≤ N) :
    e.enroll group N acc = .ok acc' ↔
      e.Accepted group ∧ acc' = acc ++ (e.interpret group).toList ∧ acc'.length ≤ N := by
  cases ht : ExtensionType.of e.type with
  | none =>
      have hi : e.interpret group = none := by simp [interpret, ht]
      rw [enroll_of_unknown ht, Except.ok.injEq, hi, Option.toList_none, List.append_nil]
      constructor
      · rintro rfl
        exact ⟨by simp [Accepted, ht], rfl, hacc⟩
      · rintro ⟨-, rfl, -⟩
        rfl
  | some t =>
      cases hi : e.interpret group with
      | none =>
          obtain ⟨err, hread, hne⟩ := read_of_refused ht hi
          rw [enroll_of_error hread hne]
          constructor
          · intro h
            cases h
          · rintro ⟨h, -⟩
            simpa [hi] using h t ht
      | some ext =>
          simp only [enroll, read_of_interpret hi]
          split
          next hlt =>
            simp only [Except.ok.injEq, Option.toList_some]
            constructor
            · rintro rfl
              exact ⟨fun _ _ => by simp [hi], rfl, by simp; omega⟩
            · rintro ⟨-, rfl, -⟩
              rfl
          next hlt =>
            constructor
            · intro h
              cases h
            · rintro ⟨-, rfl, h⟩
              simp at h
              omega

/-- A vector is accepted when each of its extensions is and they fit the capacity; it is
then the interpretation of its extensions in order. -/
theorem foldlM_enroll_eq_ok {raw : List RawExtension} {acc exts : List α} (hacc : acc.length ≤ N) :
    raw.foldlM (enroll group N) acc = .ok exts ↔
      (∀ e ∈ raw, e.Accepted group) ∧ exts = acc ++ raw.filterMap (interpret group) ∧
        exts.length ≤ N := by
  induction raw generalizing acc with
  | nil =>
      simp only [List.foldlM_nil, List.filterMap_nil, List.append_nil]
      constructor
      · intro h
        cases h
        exact ⟨by simp, rfl, hacc⟩
      · rintro ⟨-, rfl, -⟩
        rfl
  | cons e raw ih =>
      rw [List.foldlM_cons, except_bind_eq_ok, List.forall_mem_cons]
      constructor
      · rintro ⟨mid, hstep, hrun⟩
        obtain ⟨he, rfl, hmid⟩ := (enroll_eq_ok hacc).mp hstep
        obtain ⟨hraw, rfl, hle⟩ := (ih hmid).mp hrun
        refine ⟨⟨he, hraw⟩, ?_, hle⟩
        cases hi : e.interpret group <;> simp [hi]
      · rintro ⟨⟨he, hraw⟩, rfl, hle⟩
        have hsplit : (e :: raw).filterMap (interpret group) =
            (e.interpret group).toList ++ raw.filterMap (interpret group) := by
          cases hi : e.interpret group <;> simp [hi]
        rw [hsplit] at hle
        have hmid : (acc ++ (e.interpret group).toList).length ≤ N := by
          simp only [List.length_append] at hle ⊢
          omega
        exact ⟨_, (enroll_eq_ok hacc).mpr ⟨he, rfl, hmid⟩,
          (ih hmid).mpr ⟨hraw, by rw [hsplit, List.append_assoc], by rw [hsplit]; exact hle⟩⟩

/-- Extensions that are all read, and fit the vector, are its content. -/
theorem foldlM_enroll_of_read {β : Type} {xs : List β} {raw : β → RawExtension} {val : β → α}
    (hN : xs.length ≤ N) (hread : ∀ x ∈ xs, (raw x).read group = .ok (val x)) :
    (xs.map raw).foldlM (enroll group N) [] = .ok (xs.map val) := by
  have hvalues : (xs.map raw).filterMap (interpret group) = xs.map val := by
    rw [List.filterMap_map, ← List.filterMap_eq_map]
    exact List.filterMap_congr fun x hx => interpret_of_read (hread x hx)
  apply (foldlM_enroll_eq_ok (Nat.zero_le N)).mpr
  refine ⟨?_, by rw [hvalues, List.nil_append], by rw [List.length_map]; exact hN⟩
  intro e he t _
  obtain ⟨x, hx, rfl⟩ := List.mem_map.mp he
  rw [interpret_of_read (hread x hx)]
  rfl

end RawExtension

/-- Type, length and data are read before any of them is judged. -/
theorem takes_attempt_parse (group : ExtensionGroup α) (he : e.Fits) :
    Takes (attempt group.parse : Parser TlsError _) e.wire (.ok (e.read group)) := by
  intro b rest hb
  rw [RawExtension.wire, sized, List.append_assoc, List.append_assoc] at hb
  obtain ⟨b₁, h₁, hr₁⟩ := @takes_attempt_readEnum16 _ TlsError ExtensionType.of _ he.1 b _ hb
  have hb₁ := List.append_cancel_left (hr₁.rest_eq.symm.trans hb)
  obtain ⟨b₂, h₂, hr₂⟩ := takes_readU16 he.2 b₁ _ hb₁
  have hb₂ := List.append_cancel_left (hr₂.rest_eq.symm.trans hb₁)
  obtain ⟨b₃, h₃, hr₃⟩ := takes_slice (w := e.data) rfl b₂ _ hb₂
  refine ⟨b₃, ?_, hr₁.trans (hr₂.trans hr₃)⟩
  rw [attempt_eq_ok, ExtensionGroup.parse, ExtensionType.parse, bind_of_ok h₁,
    bind_of_ok (mapError_of_ok h₂), bind_of_ok (mapError_of_ok h₃), RawExtension.read, lookup]
  cases ExtensionType.of e.type with
  | none => exact ⟨rfl, rfl⟩
  | some t =>
      simp only
      cases group t with
      | none => exact ⟨rfl, rfl⟩
      | some p =>
          simp only [within]
          cases hp : p (new e.data) with
          | ok a d =>
              simp only [mapError_of_ok hp, outcome_ok, after_ok, mapError_ok_eq, and_self]
          | error err d =>
              simp only [mapError_of_error hp, outcome_error, after_error, mapError_error_eq,
                and_self]

theorem takes_vectorStep (group : ExtensionGroup α) (N : Nat) (acc : List α) (he : e.Fits) :
    Takes (group.vectorStep N acc) e.wire (e.enroll group N acc) := by
  apply (takes_attempt_parse group he).bind_last
  cases hread : e.read group with
  | ok ext =>
      simp only [RawExtension.enroll, hread, pushWithin]
      split
      · exact .pure _
      · exact .throw _ _
  | error err =>
      by_cases hu : err = .unknownExtensionType
      · subst hu
        simp only [RawExtension.enroll, hread]
        exact .pure _
      · rw [RawExtension.enroll_of_error hread hu]
        cases err <;> first | exact absurd rfl hu | exact .throw _ _

/-- The vector parser on a block of raw extensions. -/
theorem takes_parseVector (group : ExtensionGroup α) (N : Nat) {raw : List RawExtension}
    (hfits : ∀ e ∈ raw, e.Fits) (hblock : (raw.flatMap RawExtension.wire).length < 256 ^ 2) :
    Takes (group.parseVector N) (sized 2 (raw.flatMap RawExtension.wire))
      (raw.foldlM (RawExtension.enroll group N) []) := by
  rw [sized]
  apply (takes_readU16 hblock).mapError.bind
  apply (takes_slice rfl).mapError.bind_last
  exact takes_within_loop (fun e _ => by rw [e.wire_length]; omega)
    (fun e he acc => takes_vectorStep group N acc (hfits e he)) []

end Extensions

/-- The fields of a ClientHello before its extensions, within the bounds the parser asks for. -/
structure HelloFields where
  legacyVersion : Nat
  random : GenericArray 32
  legacySessionId : Bytes
  cipherSuites : Bytes
  legacyCompressionMethods : Bytes
  version_lt : legacyVersion < 256 ^ 2
  sessionId_le : legacySessionId.length ≤ 32
  suites_ge : 2 ≤ cipherSuites.length
  suites_even : cipherSuites.length % 2 = 0
  suites_lt : cipherSuites.length < 256 ^ 2
  compression_pos : 1 ≤ legacyCompressionMethods.length
  compression_lt : legacyCompressionMethods.length < 256 ^ 1

namespace HelloFields

variable (f : HelloFields) (raw : List RawExtension)

def wire : Bytes :=
  bigEndian 2 f.legacyVersion ++ (f.random.val ++ (sized 1 f.legacySessionId ++
    (sized 2 f.cipherSuites ++ sized 1 f.legacyCompressionMethods)))

def message : Bytes := [1] ++ sized 3 (f.wire ++ sized 2 (raw.flatMap RawExtension.wire))

def ref (extensions : List ClientHelloExtension) (bindersStartOffset : Nat) : ClientHelloRef where
  legacyVersion := f.legacyVersion
  random := f.random
  legacySessionId := f.legacySessionId
  cipherSuites := f.cipherSuites
  legacyCompressionMethods := f.legacyCompressionMethods
  extensions := extensions
  bindersStartOffset := bindersStartOffset

theorem wire_length : f.wire.length = 38 + f.legacySessionId.length + f.cipherSuites.length +
    f.legacyCompressionMethods.length := by
  simp only [wire, List.length_append, bigEndian_length, sized_length, f.random.property]
  omega

theorem body_lt {raw : List RawExtension} (h : (raw.flatMap RawExtension.wire).length < 256 ^ 2) :
    (f.wire ++ sized 2 (raw.flatMap RawExtension.wire)).length < 256 ^ 3 := by
  have h₁ := f.sessionId_le
  have h₂ := f.suites_lt
  have h₃ := f.compression_lt
  rw [List.length_append, sized_length, f.wire_length]
  omega

end HelloFields

namespace ClientHelloRef

theorem takes_parseSessionId {w : Bytes} (h : w.length ≤ 32) :
    Takes parseSessionId (sized 1 w) (.ok w) := by
  obtain ⟨n, hn, hw⟩ := @exists_sized_one w (by omega)
  rw [hw, parseSessionId]
  refine ((takes_readU8 n).mapError).bind ?_
  rw [if_neg (by omega)]
  exact ((takes_slice hn).mapError).map

theorem takes_parseCipherSuites {w : Bytes} (hge : 2 ≤ w.length) (heven : w.length % 2 = 0)
    (hlt : w.length < 256 ^ 2) : Takes parseCipherSuites (sized 2 w) (.ok w) := by
  rw [parseCipherSuites, sized]
  refine ((takes_readU16 hlt).mapError).bind ?_
  rw [if_neg (by omega)]
  exact ((takes_slice rfl).mapError).map

theorem takes_parseCompressionMethods {w : Bytes} (hpos : 1 ≤ w.length)
    (hlt : w.length < 256 ^ 1) : Takes parseCompressionMethods (sized 1 w) (.ok w) := by
  obtain ⟨n, hn, hw⟩ := exists_sized_one hlt
  rw [hw, parseCompressionMethods]
  refine ((takes_readU8 n).mapError).bind ?_
  rw [if_neg (by omega)]
  exact ((takes_slice hn).mapError).map

theorem parseHeader_new {n : Nat} (hn : n < 256 ^ 3) (rest : Bytes) :
    ∃ b, parseHeader (new ([1] ++ (bigEndian 3 n ++ rest))) = .ok (4 + n) b ∧
      Reads (new ([1] ++ (bigEndian 3 n ++ rest))) ([1] ++ bigEndian 3 n) b := by
  obtain ⟨b₁, h₁, hr₁⟩ := takes_readU8 1 (new ([1] ++ (bigEndian 3 n ++ rest))) _ rfl
  obtain ⟨b₂, h₂, hr₂⟩ := takes_readU24 hn b₁ rest (List.append_cancel_left hr₁.rest_eq.symm)
  have hpos : b₂.pos = 4 := by
    rw [hr₂.pos_eq, hr₁.pos_eq, bigEndian_length]
    rfl
  refine ⟨b₂, ?_, hr₁.trans hr₂⟩
  rw [parseHeader, orInvalid, bind_of_ok (mapError_of_ok h₁), if_neg (by decide), orInvalid,
    bind_of_ok (mapError_of_ok h₂), bind_of_ok (offset_apply b₂), pure_apply, hpos]

/-- The answer of the parser to a message with the given fields and extensions. -/
theorem parse_message (NEXT : Nat) (f : HelloFields) {raw : List RawExtension}
    (hfits : ∀ e ∈ raw, e.Fits) (hblock : (raw.flatMap RawExtension.wire).length < 256 ^ 2)
    (trailing : Bytes) :
    outcome (parse NEXT (new (f.message raw ++ trailing))) = (do
      let exts ← raw.foldlM (RawExtension.enroll ClientHelloExtension.group NEXT) []
      let start ← findBindersStart exts (f.message raw).length
      .ok (f.ref exts start)) := by
  have hbody := f.body_lt hblock
  set body := f.wire ++ sized 2 (raw.flatMap RawExtension.wire) with hbodyEq
  have hmsg : f.message raw ++ trailing = [1] ++ (bigEndian 3 body.length ++ (body ++ trailing)) := by
    simp only [HelloFields.message, sized, List.append_assoc, hbodyEq]
  have hlen : (f.message raw).length = 4 + body.length := by
    simp only [HelloFields.message, List.length_append, List.length_singleton, sized_length, hbodyEq]
    omega
  rw [hmsg, hlen]
  obtain ⟨b₁, h₁, hr₁⟩ := parseHeader_new hbody (body ++ trailing)
  have hrest₁ : b₁.rest = bigEndian 2 f.legacyVersion ++ (f.random.val ++
      (sized 1 f.legacySessionId ++ (sized 2 f.cipherSuites ++ (sized 1 f.legacyCompressionMethods ++
        (sized 2 (raw.flatMap RawExtension.wire) ++ trailing))))) := by
    have := hr₁.rest_eq
    rw [new_rest, ← List.append_assoc] at this
    rw [← List.append_cancel_left this, hbodyEq]
    simp only [HelloFields.wire, List.append_assoc]
  obtain ⟨b₂, h₂, hr₂⟩ := takes_readU16 f.version_lt b₁ _ hrest₁
  have hrest₂ := List.append_cancel_left (hr₂.rest_eq.symm.trans hrest₁)
  obtain ⟨b₃, h₃, hr₃⟩ := takes_fill f.random b₂ _ hrest₂
  have hrest₃ := List.append_cancel_left (hr₃.rest_eq.symm.trans hrest₂)
  obtain ⟨b₄, h₄, hr₄⟩ := takes_parseSessionId f.sessionId_le b₃ _ hrest₃
  have hrest₄ := List.append_cancel_left (hr₄.rest_eq.symm.trans hrest₃)
  obtain ⟨b₅, h₅, hr₅⟩ := takes_parseCipherSuites f.suites_ge f.suites_even f.suites_lt b₄ _ hrest₄
  have hrest₅ := List.append_cancel_left (hr₅.rest_eq.symm.trans hrest₄)
  obtain ⟨b₆, h₆, hr₆⟩ :=
    takes_parseCompressionMethods f.compression_pos f.compression_lt b₅ _ hrest₅
  have hrest₆ := List.append_cancel_left (hr₆.rest_eq.symm.trans hrest₅)
  have hvector := takes_parseVector ClientHelloExtension.group NEXT hfits hblock
  rw [parse, bind_of_ok h₁, orInvalid, bind_of_ok (mapError_of_ok h₂), orInvalid,
    bind_of_ok (mapError_of_ok h₃), bind_of_ok h₄, bind_of_ok h₅, bind_of_ok h₆]
  cases hfold : raw.foldlM (RawExtension.enroll ClientHelloExtension.group NEXT) [] with
  | error e =>
      rw [hfold] at hvector
      obtain ⟨b₇, h₇⟩ := hvector b₆ trailing hrest₆
      rw [bind_of_error h₇, outcome_error, error_bind]
  | ok exts =>
      rw [hfold] at hvector
      obtain ⟨b₇, h₇, hr₇⟩ := hvector b₆ trailing hrest₆
      have hpos : b₇.pos = 4 + body.length := by
        have hall := hr₁.trans (hr₂.trans (hr₃.trans (hr₄.trans (hr₅.trans (hr₆.trans hr₇)))))
        rw [hall.pos_eq, new_pos, hbodyEq, HelloFields.wire]
        simp only [List.length_append, List.length_singleton, bigEndian_length]
        omega
      rw [bind_of_ok h₇, bind_of_ok (offset_apply b₇), hpos, if_neg (by simp), ok_bind]
      cases findBindersStart exts (4 + body.length) with
      | error e => rfl
      | ok start => rfl

def pskOf : ClientHelloExtension → Option PreSharedKeyClientHello
  | .preSharedKey psk => some psk
  | _ => none

theorem findBindersStart_eq (exts : List ClientHelloExtension) (total : Nat) :
    findBindersStart exts total =
      if 1 < (pskIndices exts).length then .error (fatal .illegalParameter)
      else
        match (pskIndices exts).head? with
        | none => .ok total
        | some idx =>
            if idx ≠ exts.length - 1 then .error (fatal .illegalParameter)
            else
              match exts[idx]?.bind pskOf with
              | none => .ok total
              | some psk =>
                  if bindersWireLen psk.binders > total then .error .invalidHandshake
                  else .ok (total - bindersWireLen psk.binders) := by
  simp only [findBindersStart]
  split
  · rfl
  cases (pskIndices exts).head? with
  | none => rfl
  | some idx =>
      simp only
      split
      · rfl
      cases exts[idx]? with
      | none => rfl
      | some ext => cases ext <;> rfl

theorem pskIndices_eq (exts : List ClientHelloExtension) :
    pskIndices exts = (exts.map pskOf).zipIdx.filterMap fun p => p.1.map fun _ => p.2 := by
  rw [pskIndices, List.zipIdx_map, List.filterMap_map]
  congr 1
  funext p
  obtain ⟨ext, i⟩ := p
  cases ext <;> rfl

/-- At most one pre_shared_key, and no extension behind it. -/
def PskPlaced (exts : List ClientHelloExtension) : Prop :=
  (pskIndices exts).length ≤ 1 ∧ ∀ i ∈ pskIndices exts, i = exts.length - 1

theorem PskPlaced.congr {exts exts' : List ClientHelloExtension}
    (h : exts.map pskOf = exts'.map pskOf) (hp : PskPlaced exts) : PskPlaced exts' := by
  have hlen : exts.length = exts'.length := by simpa using congrArg List.length h
  rwa [PskPlaced, pskIndices_eq, ← h, ← pskIndices_eq, ← hlen]

theorem PskPlaced.of_last {earlier : List ClientHelloExtension}
    (h : ∀ ext ∈ earlier, pskOf ext = none) (last : ClientHelloExtension) :
    PskPlaced (earlier ++ [last]) := by
  have hnone : ((earlier.map pskOf).zipIdx.filterMap fun p => p.1.map fun _ => p.2) = [] := by
    rw [List.filterMap_eq_nil_iff]
    rintro ⟨psk, i⟩ hmem
    obtain ⟨ext, hext, heq⟩ := List.mem_map.mp (List.fst_mem_of_mem_zipIdx hmem)
    rw [h ext hext] at heq
    simp only at heq
    rw [← heq]
    rfl
  have hindices : pskIndices (earlier ++ [last]) =
      ((pskOf last).map fun _ => earlier.length).toList := by
    rw [pskIndices_eq, List.map_append, List.zipIdx_append, List.filterMap_append,
      hnone, List.nil_append, List.length_map, Nat.zero_add]
    cases hlast : pskOf last with
    | none => simp [hlast]
    | some psk => simp [hlast]
  rw [PskPlaced, hindices]
  cases pskOf last with
  | none => simp
  | some psk => simp

/-- The offset is found when pre_shared_key is where it belongs and the message is not
shorter than the binders in it. -/
theorem findBindersStart_found {exts : List ClientHelloExtension} {total : Nat}
    (hle : ∀ psk, .preSharedKey psk ∈ exts → bindersWireLen psk.binders ≤ total) :
    (∃ start, findBindersStart exts total = .ok start) ↔ PskPlaced exts := by
  rw [findBindersStart_eq, PskPlaced]
  by_cases hone : 1 < (pskIndices exts).length
  · rw [if_pos hone]
    constructor
    · rintro ⟨start, h⟩
      cases h
    · rintro ⟨h, -⟩
      omega
  rw [if_neg hone, and_iff_right (by omega)]
  cases hidx : pskIndices exts with
  | nil => simp
  | cons idx rest =>
      have hrest : rest = [] := by
        rw [hidx, List.length_cons] at hone
        exact List.length_eq_zero_iff.mp (by omega)
      subst hrest
      simp only [List.head?_cons, List.mem_singleton, forall_eq]
      by_cases hlast : idx = exts.length - 1
      · rw [if_neg (not_not.mpr hlast)]
        simp only [hlast, iff_true]
        cases hpsk : exts[exts.length - 1]?.bind pskOf with
        | none => exact ⟨_, rfl⟩
        | some psk =>
            obtain ⟨ext, hext, hof⟩ := Option.bind_eq_some_iff.mp hpsk
            have hmem : .preSharedKey psk ∈ exts := by
              cases ext with
              | preSharedKey p =>
                  rw [← Option.some.inj hof]
                  exact List.mem_of_getElem? hext
              | _ => cases hof
            exact ⟨_, if_neg (Nat.not_lt.mpr (hle psk hmem))⟩
      · rw [if_pos hlast]
        simp [hlast]

/-- The binders of a message are no longer than the message. -/
theorem bindersWireLen_le_message {f : HelloFields} {raw : List RawExtension}
    {psk : PreSharedKeyClientHello} (h : .preSharedKey psk ∈
      raw.filterMap (RawExtension.interpret ClientHelloExtension.group)) :
    bindersWireLen psk.binders ≤ (f.message raw).length := by
  obtain ⟨e, he, hi⟩ := List.mem_filterMap.mp h
  obtain ⟨d, hparse⟩ := interpret_preSharedKey hi
  obtain ⟨identities, leftover, -, -, hdata⟩ := PreSharedKeyClientHello.parse_eq_ok hparse
  obtain ⟨before, after, rfl⟩ := List.append_of_mem he
  have hlen := congrArg List.length hdata
  simp only [List.length_append, bindersWire_length] at hlen
  simp only [HelloFields.message, List.length_append, sized_length, List.flatMap_append,
    List.flatMap_cons, e.wire_length]
  omega

/-- When a message with the given fields and extensions is accepted, and as what. -/
theorem parse_message_accepts {NEXT : Nat} {f : HelloFields} {raw : List RawExtension}
    (hfits : ∀ e ∈ raw, e.Fits) (hblock : (raw.flatMap RawExtension.wire).length < 256 ^ 2)
    {trailing : Bytes} {exts : List ClientHelloExtension} :
    (∃ hello b, parse NEXT (new (f.message raw ++ trailing)) = .ok hello b ∧
        hello.extensions = exts) ↔
      (∀ e ∈ raw, e.Accepted ClientHelloExtension.group) ∧
        exts = raw.filterMap (RawExtension.interpret ClientHelloExtension.group) ∧
        exts.length ≤ NEXT ∧ PskPlaced exts := by
  have hanswer := parse_message NEXT f hfits hblock trailing
  constructor
  · rintro ⟨hello, b, hparse, rfl⟩
    rw [hparse, outcome_ok] at hanswer
    obtain ⟨exts, hfold, hstart⟩ := except_bind_eq_ok.mp hanswer.symm
    obtain ⟨start, hstart, hhello⟩ := except_bind_eq_ok.mp hstart
    have hexts : hello.extensions = exts := by
      rw [← Except.ok.inj hhello]
      rfl
    obtain ⟨haccepted, hlist, hle⟩ := (RawExtension.foldlM_enroll_eq_ok (Nat.zero_le _)).mp hfold
    rw [List.nil_append] at hlist
    rw [hexts]
    refine ⟨haccepted, hlist, hle, (findBindersStart_found ?_).mp ⟨start, hstart⟩⟩
    rw [hlist]
    exact fun psk => bindersWireLen_le_message
  · rintro ⟨haccepted, hlist, hle, hplaced⟩
    have hbinders : ∀ psk, .preSharedKey psk ∈ exts →
        bindersWireLen psk.binders ≤ (f.message raw).length := by
      rw [hlist]
      exact fun psk => bindersWireLen_le_message
    obtain ⟨start, hstart⟩ := (findBindersStart_found hbinders).mpr hplaced
    have hfold : raw.foldlM (RawExtension.enroll ClientHelloExtension.group NEXT) [] = .ok exts :=
      (RawExtension.foldlM_enroll_eq_ok (Nat.zero_le NEXT)).mpr ⟨haccepted, hlist, hle⟩
    rw [hfold, ok_bind, hstart, ok_bind] at hanswer
    exact ⟨_, _, outcome_eq_ok hanswer, rfl⟩

/-- The bytes from the extension block on, its length included. -/
def fromExtensions (msg : Bytes) : Bytes := dropSized 1 (dropSized 2 (dropSized 1 (msg.drop 38)))

def fieldBytes (msg : Bytes) : Bytes :=
  (msg.drop 4).take (msg.length - 4 - (fromExtensions msg).length)

/-- The message with other extensions, and the lengths around them adjusted. -/
def withExtensions (msg : Bytes) (raw : List RawExtension) : Bytes :=
  [1] ++ sized 3 (fieldBytes msg ++ sized 2 (raw.flatMap RawExtension.wire)) ++
    dropSized 2 (fromExtensions msg)

theorem fromExtensions_message (f : HelloFields) (raw : List RawExtension) (trailing : Bytes) :
    fromExtensions (f.message raw ++ trailing) =
      sized 2 (raw.flatMap RawExtension.wire) ++ trailing := by
  have hfixed : ([1] ++ (bigEndian 3 (f.wire ++ sized 2 (raw.flatMap RawExtension.wire)).length ++
      (bigEndian 2 f.legacyVersion ++ f.random.val))).length = 38 := by
    simp [f.random.property]
  have hsplit : f.message raw ++ trailing =
      ([1] ++ (bigEndian 3 (f.wire ++ sized 2 (raw.flatMap RawExtension.wire)).length ++
        (bigEndian 2 f.legacyVersion ++ f.random.val))) ++
      (sized 1 f.legacySessionId ++ (sized 2 f.cipherSuites ++
        (sized 1 f.legacyCompressionMethods ++
          (sized 2 (raw.flatMap RawExtension.wire) ++ trailing)))) := by
    rw [HelloFields.message, sized]
    simp only [HelloFields.wire, List.append_assoc]
  have hsid := f.sessionId_le
  rw [fromExtensions, hsplit, List.drop_left' hfixed, dropSized_sized (by omega),
    dropSized_sized f.suites_lt, dropSized_sized f.compression_lt]

theorem withExtensions_message (f : HelloFields) {raw : List RawExtension}
    (hblock : (raw.flatMap RawExtension.wire).length < 256 ^ 2) (trailing : Bytes)
    (raw' : List RawExtension) :
    withExtensions (f.message raw ++ trailing) raw' = f.message raw' ++ trailing := by
  have hfields : fieldBytes (f.message raw ++ trailing) = f.wire := by
    have hsplit : f.message raw ++ trailing =
        ([1] ++ bigEndian 3 (f.wire ++ sized 2 (raw.flatMap RawExtension.wire)).length) ++
          (f.wire ++ (sized 2 (raw.flatMap RawExtension.wire) ++ trailing)) := by
      simp only [HelloFields.message, sized, List.append_assoc]
    have hlen : (f.message raw ++ trailing).length - 4 -
        (sized 2 (raw.flatMap RawExtension.wire) ++ trailing).length = f.wire.length := by
      rw [hsplit]
      simp only [List.length_append, List.length_singleton, bigEndian_length, sized_length]
      omega
    rw [fieldBytes, fromExtensions_message, hlen, hsplit, List.drop_left' (by simp), List.take_left]
  rw [withExtensions, hfields, fromExtensions_message, dropSized_sized hblock, HelloFields.message]

theorem parse_bounds {NEXT : Nat} {msg : Bytes} {hello : ClientHelloRef} {b : ParseBuffer}
    (h : parse NEXT (new msg) = .ok hello b) :
    2 ≤ hello.cipherSuites.length ∧ hello.cipherSuites.length % 2 = 0 ∧
      1 ≤ hello.legacyCompressionMethods.length := by
  simp only [parse, bind_eq_ok] at h
  obtain ⟨total, b₁, -, version, b₂, -, random, b₃, -, sid, b₄, -, suites, b₅, h₅,
    comp, b₆, h₆, exts, b₇, -, pos, b₈, -, h⟩ := h
  split at h
  · simp at h
  simp only [bind_eq_ok, fromResult_eq_ok, pure_apply, EStateM.Result.ok.injEq] at h
  obtain ⟨start, b₉, -, rfl, -⟩ := h
  simp only [parseCipherSuites, orInvalid, bind_eq_ok, mapError_eq_ok] at h₅
  obtain ⟨n, c, -, h₅⟩ := h₅
  split at h₅
  · simp at h₅
  next hn =>
    simp only [bind_eq_ok, mapError_eq_ok, slice_eq_ok, pure_apply, EStateM.Result.ok.injEq] at h₅
    obtain ⟨s, c, ⟨w, rfl, rfl, -⟩, rfl, -⟩ := h₅
    simp only [parseCompressionMethods, orInvalid, bind_eq_ok, mapError_eq_ok] at h₆
    obtain ⟨m, d, -, h₆⟩ := h₆
    split at h₆
    · simp at h₆
    next hm =>
      simp only [bind_eq_ok, mapError_eq_ok, slice_eq_ok, pure_apply,
        EStateM.Result.ok.injEq] at h₆
      obtain ⟨s, d, ⟨v, rfl, hv, -⟩, rfl, -⟩ := h₆
      simp only [new_buffer]
      omega

/-- Every accepted message is made of fields within the bounds and its extensions. -/
theorem exists_fields {NEXT : Nat} {msg : Bytes} {hello : ClientHelloRef} {b : ParseBuffer}
    (h : parse NEXT (new msg) = .ok hello b) :
    (∀ e ∈ wireExtensions msg, e.Fits) ∧
      ((wireExtensions msg).flatMap RawExtension.wire).length < 256 ^ 2 ∧
      ∃ f : HelloFields, msg = f.message (wireExtensions msg) ++ b.rest := by
  obtain ⟨l, hrest, -⟩ := parse_eq_ok h
  obtain ⟨hge, heven, hpos⟩ := parse_bounds h
  rw [l.wireExtensions_eq, hrest]
  refine ⟨l.raw_fits, l.block_lt, ⟨hello.legacyVersion, hello.random, hello.legacySessionId,
    hello.cipherSuites, hello.legacyCompressionMethods, l.version_lt, l.sessionId_le, hge, heven,
    l.suites_lt, hpos, l.compression_lt⟩, ?_⟩
  have hbody : l.bodyLen = (bigEndian 2 hello.legacyVersion ++ (hello.random.val ++
      (sized 1 hello.legacySessionId ++ (sized 2 hello.cipherSuites ++
        (sized 1 hello.legacyCompressionMethods ++
          sized 2 (l.raw.flatMap RawExtension.wire)))))).length := by
    have hlen := l.length_eq
    rw [congrArg List.length l.message] at hlen
    simp only [List.length_append, List.length_singleton, bigEndian_length] at hlen ⊢
    omega
  have hmsg := l.message
  rw [hbody] at hmsg
  refine hmsg.trans ?_
  simp only [HelloFields.message, HelloFields.wire, sized, List.append_assoc]

/-- Exchanging the extensions of an accepted message, in terms of its fields. -/
theorem exists_withExtensions {NEXT : Nat} {msg : Bytes} {hello : ClientHelloRef}
    {b : ParseBuffer} (h : parse NEXT (new msg) = .ok hello b) :
    withExtensions msg (wireExtensions msg) = msg ∧
      ∃ f : HelloFields, ∀ raw, withExtensions msg raw = f.message raw ++ b.rest := by
  obtain ⟨-, hblock, f, hmsg⟩ := exists_fields h
  have key : ∀ raw, withExtensions msg raw = f.message raw ++ b.rest := by
    intro raw
    conv_lhs => rw [hmsg]
    exact withExtensions_message f hblock b.rest raw
  exact ⟨(key _).trans hmsg.symm, f, key⟩

end ClientHelloRef

end GatoPskTls
