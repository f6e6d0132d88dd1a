import GatoPskTls.Handshake

/-!
# Where a handshake message ends

The parser of a handshake message looks at nothing behind the bytes it goes over. So a message
is read the same whatever follows it, and no beginning of a message is one.
-/
namespace GatoPskTls

open Stateful BigEndian

namespace ParseBuffer

variable {ε ε' α β : Type}

/-- A success depends only on the bytes gone over. -/
def Local (p : Parser ε α) : Prop :=
  ∀ b a b', p b = .ok a b' → ∃ w, Reads b w b' ∧
    ∀ c r, c.rest = w ++ r → ∃ c', p c = .ok a c' ∧ Reads c w c'

namespace Local

theorem pure (a : α) : Local (Pure.pure a : Parser ε α) := by
  rintro b _ _ ⟨⟩
  exact ⟨[], .refl b, fun c _ _ => ⟨c, rfl, .refl c⟩⟩

theorem throw (e : ε) : Local (MonadExcept.throw e : Parser ε α) := fun _ _ _ h => by cases h

theorem mapError {p : Parser ε α} (hp : Local p) (g : ε → ε') : Local (Stateful.mapError g p) := by
  intro b a b' h
  obtain ⟨w, hw, hlocal⟩ := hp b a b' (mapError_eq_ok.mp h)
  refine ⟨w, hw, fun c r hc => ?_⟩
  obtain ⟨c', hrun, hreads⟩ := hlocal c r hc
  exact ⟨c', mapError_eq_ok.mpr hrun, hreads⟩

theorem bind {p : Parser ε α} {f : α → Parser ε β} (hp : Local p) (hf : ∀ a, Local (f a)) :
    Local (p >>= f) := by
  intro b x b' h
  obtain ⟨a, b₁, hfirst, hsecond⟩ := bind_eq_ok.mp h
  obtain ⟨u, hu, hlocal₁⟩ := hp b a b₁ hfirst
  obtain ⟨v, hv, hlocal₂⟩ := hf a b₁ x b' hsecond
  refine ⟨u ++ v, hu.trans hv, fun c r hc => ?_⟩
  rw [List.append_assoc] at hc
  obtain ⟨c₁, hrun₁, hreads₁⟩ := hlocal₁ c (v ++ r) hc
  have hrest : c₁.rest = v ++ r := List.append_cancel_left (hreads₁.rest_eq.symm.trans hc)
  obtain ⟨c₂, hrun₂, hreads₂⟩ := hlocal₂ c₁ r hrest
  exact ⟨c₂, bind_eq_ok.mpr ⟨a, c₁, hrun₁, hrun₂⟩, hreads₁.trans hreads₂⟩

theorem advance (n : Nat) : Local (ParseBuffer.advance n) := by
  intro b w b' h
  obtain ⟨hlen, hw⟩ := advance_eq_ok.mp h
  refine ⟨w, hw, fun c r hc => ?_⟩
  obtain ⟨c', hreads, -⟩ := exists_reads hc
  exact ⟨c', advance_eq_ok.mpr ⟨hlen, hreads⟩, hreads⟩

theorem slice (n : Nat) : Local (ParseBuffer.slice n) := (advance n).bind fun _ => pure _

theorem readU16 : Local ParseBuffer.readU16 := (advance 2).bind fun _ => pure _

theorem readU24 : Local ParseBuffer.readU24 := (advance 3).bind fun _ => pure _

theorem readU32 : Local ParseBuffer.readU32 := (advance 4).bind fun _ => pure _

theorem readU8 : Local ParseBuffer.readU8 := by
  intro b v b' h
  have hv := readU8_eq_ok.mp h
  refine ⟨[v], hv, fun c r hc => ?_⟩
  obtain ⟨c', hreads, -⟩ := exists_reads hc
  exact ⟨c', readU8_eq_ok.mpr hreads, hreads⟩

theorem fill (n : Nat) : Local (ParseBuffer.fill n) := by
  intro b v b' h
  have hv := fill_eq_ok.mp h
  refine ⟨v.val, hv, fun c r hc => ?_⟩
  obtain ⟨c', hreads, -⟩ := exists_reads hc
  exact ⟨c', fill_eq_ok.mpr hreads, hreads⟩

theorem within (data : ParseBuffer) (p : Parser ε α) : Local (ParseBuffer.within data p) := by
  intro b a b' h
  obtain ⟨rfl, hd⟩ := within_eq_ok.mp h
  exact ⟨[], .refl _, fun c _ _ => ⟨c, within_eq_ok.mpr ⟨rfl, hd⟩, .refl c⟩⟩

theorem readEnum8 (of : UInt8 → Option α) : Local (GatoPskTls.readEnum8 of) := by
  refine readU8.bind fun v => ?_
  split
  · exact pure _
  · exact throw _

theorem readEnum16 (of : Nat → Option α) : Local (GatoPskTls.readEnum16 of) := by
  refine readU16.bind fun v => ?_
  split
  · exact pure _
  · exact throw _

theorem parseVector (group : ExtensionGroup α) (N : Nat) : Local (group.parseVector N) :=
  (readU16.mapError _).bind fun _ => ((slice _).mapError _).bind fun _ => within _ _

end Local

end ParseBuffer

open ParseBuffer

variable {cs : TlsCipherSuite}

namespace ServerHandshake

theorem local_parseBody (t : HandshakeType) :
    Local (parseBody t : Parser TlsError (ServerHandshake cs)) := by
  cases t with
  | serverHello =>
      refine Local.bind ?_ fun _ => .pure _
      exact (Local.readU16.mapError _).bind fun _ => ((Local.fill 32).mapError _).bind fun _ =>
        (Local.readU8.mapError _).bind fun _ => ((Local.slice _).mapError _).bind fun _ =>
          ((Local.readEnum16 _).mapError _).bind fun _ => (Local.readU8.mapError _).bind fun _ =>
            (Local.parseVector _ 4).bind fun _ => .pure _
  | newSessionTicket =>
      refine Local.bind ?_ fun _ => .pure _
      exact (Local.readU32.mapError _).bind fun _ => (Local.readU32.mapError _).bind fun _ =>
        (Local.readU8.mapError _).bind fun _ => ((Local.slice _).mapError _).bind fun _ =>
          (Local.readU16.mapError _).bind fun _ => ((Local.slice _).mapError _).bind fun _ =>
            (Local.parseVector _ 1).bind fun _ => .pure _
  | encryptedExtensions =>
      exact ((Local.parseVector _ 16).bind fun _ => .pure _).bind fun _ => .pure _
  | certificate =>
      refine Local.bind ?_ fun _ => .pure _
      exact (Local.readU8.mapError _).bind fun _ => ((Local.slice _).mapError _).bind fun _ =>
        (Local.readU24.mapError _).bind fun _ => ((Local.slice _).mapError _).bind fun _ =>
          (Local.within _ _).bind fun _ => .pure _
  | certificateRequest =>
      refine Local.bind ?_ fun _ => .pure _
      exact (Local.readU8.mapError _).bind fun _ => ((Local.slice _).mapError _).bind fun _ =>
        (Local.parseVector _ 6).bind fun _ => .pure _
  | certificateVerify =>
      refine Local.bind ?_ fun _ => .pure _
      exact ((Local.readEnum16 _).mapError _).bind fun _ => (Local.readU16.mapError _).bind fun _ =>
        ((Local.slice _).mapError _).bind fun _ => .pure _
  | finished =>
      exact (((Local.fill _).mapError _).bind fun _ => .pure _).bind fun _ => .pure _
  | _ => exact .throw _

theorem local_parse : Local (parse : Parser TlsError (ServerHandshake cs)) :=
  ((Local.readEnum8 _).mapError _).bind fun t => (Local.readU24.mapError _).bind fun _ =>
    local_parseBody t

/-- The bytes of one message, which the parser goes over to the last. -/
def Encodes (cs : TlsCipherSuite) (bytes : Bytes) (message : ServerHandshake cs) : Prop :=
  ∃ b, parse (.new bytes) = .ok message b ∧ b.rest = []

variable {bytes : Bytes} {message : ServerHandshake cs}

/-- A message is read the same whatever follows it. -/
theorem Encodes.parse_of_rest (h : Encodes cs bytes message) {c : ParseBuffer} {r : Bytes}
    (hc : c.rest = bytes ++ r) : ∃ c', parse c = .ok message c' ∧ Reads c bytes c' := by
  obtain ⟨b, hparse, hrest⟩ := h
  obtain ⟨w, hw, hlocal⟩ := local_parse _ _ _ hparse
  obtain rfl : bytes = w := by
    have := hw.rest_eq
    rwa [hrest, List.append_nil, new_rest] at this
  exact hlocal c r hc

theorem Encodes.length (h : Encodes cs bytes message) : 4 ≤ bytes.length := by
  obtain ⟨b, hparse, hrest⟩ := h
  obtain ⟨w, hlen, hw⟩ := parse_reads hparse
  have := hw.rest_eq
  rw [hrest, List.append_nil, new_rest] at this
  rwa [this]

/-- No beginning of a message is read as one. -/
theorem Encodes.parse_of_cut (h : Encodes cs bytes message) {c : ParseBuffer} {v : Bytes}
    (hbytes : bytes = c.rest ++ v) (hv : v ≠ []) :
    ∃ e c', (parse : Parser TlsError (ServerHandshake cs)) c = .error e c' := by
  cases hparse : (parse : Parser TlsError (ServerHandshake cs)) c with
  | error e c' => exact ⟨e, c', rfl⟩
  | ok message' c' =>
      obtain ⟨w, hw, hlocal⟩ := local_parse _ _ _ hparse
      obtain ⟨b', hparse', hw'⟩ := hlocal (.new bytes) (c'.rest ++ v) (by
        rw [new_rest, hbytes, hw.rest_eq, List.append_assoc])
      obtain ⟨b, hwhole, hrest⟩ := h
      cases hwhole.symm.trans hparse'
      have hall := hw'.rest_eq
      rw [hrest, List.append_nil, new_rest, hbytes, hw.rest_eq, List.append_assoc] at hall
      have hnil := List.append_cancel_left (hall.trans (List.append_nil w).symm)
      exact absurd (List.append_eq_nil_iff.mp hnil).2 hv

end ServerHandshake

end GatoPskTls
