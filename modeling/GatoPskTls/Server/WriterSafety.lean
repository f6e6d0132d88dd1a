import GatoPskTls.BufferSafety
import GatoPskTls.Panics
import GatoPskTls.Server.FlightSpec

/-!
# Server: what writing records asks

The record writers once more, with every index, slice, sum, difference and length field they use.
A writer inside its buffer meets everything asked: each position a field is written back to lies
in front of the writer, and the messages are too short to overflow their length fields.
-/
namespace GatoPskTls.Server.Checked

open GatoPskTls Stateful BigEndian Splice Tracing Traced Demands
open GatoPskTls.Checked (BufferM Window)

variable {cs : TlsCipherSuite} {limit : Nat} {α β : Type}

abbrev WriterM := Traced Demand Stop OutWriter

/-- The writer stands at `pos` in a buffer of `cap` bytes. -/
structure At (pos cap : Nat) (w : OutWriter) : Prop where
  pos_eq : w.pos = pos
  cap_eq : w.buf.length = cap
  inside : pos ≤ cap

/-- The writer stands somewhere in a buffer of `cap` bytes. -/
structure Inside (cap : Nat) (w : OutWriter) : Prop where
  cap_eq : w.buf.length = cap
  pos_le : w.pos ≤ cap

theorem At.stands {pos cap : Nat} {w : OutWriter} (h : At pos cap w) : Inside cap w :=
  ⟨h.cap_eq, h.pos_eq ▸ h.inside⟩

theorem Inside.at_pos {cap : Nat} {w : OutWriter} (h : Inside cap w) : At w.pos cap w :=
  ⟨rfl, h.cap_eq, h.pos_le⟩

/-- From `pos` on, everything asked is met, and only errors are returned. -/
abbrev Writes (limit pos cap : Nat) (x : WriterM α) (post : α → OutWriter → Prop) : Prop :=
  Safe limit (At pos cap) x post fun e _ => Returned e

def position : WriterM Nat := bare fun w => .ok w.pos w

theorem position_bind {pos cap : Nat} {f : Nat → WriterM α} {post : α → OutWriter → Prop}
    (h : Writes limit pos cap (f pos) post) : Writes limit pos cap (position >>= f) post := by
  have hposition : Writes limit pos cap position fun p w => p = pos ∧ At pos cap w :=
    .bare fun w hw => ⟨hw.pos_eq, hw⟩
  refine hposition.bind fun p => .of_fact fun hp => ?_
  rw [hp]
  exact h

/-- `checked_add`, then a copy into the slice behind the position. -/
def append (data : Bytes) : WriterM Unit :=
  asking (fun w => .plus w.pos data.length ::
    if w.pos + data.length ≤ w.buf.length then
      [.slice w.pos (w.pos + data.length) w.buf.length,
        .copy (w.pos + data.length - w.pos) data.length]
    else []) (OutWriter.append data)

/-- A field written back, as one slice or byte by byte. -/
def patch (pos : Nat) (data : Bytes) : WriterM Unit :=
  asking (fun w => [.plus pos data.length, .slice pos (pos + data.length) w.buf.length,
    .copy (pos + data.length - pos) data.length] ++
    (List.range data.length).flatMap fun i => [.plus pos i, .index (pos + i) w.buf.length])
    (OutWriter.patch pos data)

@[simp] theorem erase_append (data : Bytes) : (append data).erase = OutWriter.append data := rfl

@[simp] theorem erase_patch (pos : Nat) (data : Bytes) :
    (patch pos data).erase = OutWriter.patch pos data := rfl

section Writer

variable {pos cap : Nat} (hcap : 2 * cap < limit)
include hcap

theorem append_safe {data : Bytes} (hdata : 2 * data.length < limit) :
    Writes limit pos cap (append data) fun _ => At (pos + data.length) cap := by
  refine .asking fun w hw => ?_
  obtain ⟨rfl, rfl, hinside⟩ := hw
  rw [OutWriter.append]
  by_cases hroom : w.pos + data.length ≤ w.buf.length
  · rw [if_pos hroom, if_neg (Nat.not_lt.mpr hroom)]
    refine ⟨?_, rfl, splice_length hroom, hroom⟩
    simp only [allMet_cons, allMet_nil, and_true, Demand.Met]
    omega
  · rw [if_neg hroom, if_pos (Nat.lt_of_not_le hroom)]
    refine ⟨?_, trivial⟩
    simp only [allMet_cons, allMet_nil, and_true, Demand.Met]
    omega

theorem patch_safe {start : Nat} {data : Bytes} (h : start + data.length ≤ pos) :
    Writes limit pos cap (patch start data) fun _ => At pos cap := by
  refine .asking fun w hw => ?_
  obtain ⟨rfl, rfl, hinside⟩ := hw
  refine ⟨allMet_append.mpr ⟨?_, ?_⟩, rfl, splice_length (Nat.le_trans h hinside), hinside⟩
  · simp only [allMet_cons, allMet_nil, and_true, Demand.Met]
    omega
  · intro d hd
    obtain ⟨i, hi, hd⟩ := List.mem_flatMap.mp hd
    rw [List.mem_range] at hi
    have hbyte : AllMet limit [.plus start i, .index (start + i) w.buf.length] := by
      simp only [allMet_cons, allMet_nil, and_true, Demand.Met]
      omega
    exact hbyte d hd

end Writer

/-- Wherever the writer stands, a success has put `n` bytes. -/
def Puts (limit cap : Nat) (x : WriterM Unit) (n : Nat) : Prop :=
  ∀ pos, Writes limit pos cap x fun _ => At (pos + n) cap

theorem Puts.bind {cap n m : Nat} {x : WriterM Unit} {f : Unit → WriterM Unit}
    (hx : Puts limit cap x n) (hf : Puts limit cap (f ()) m) : Puts limit cap (x >>= f) (n + m) := by
  intro pos
  refine (hx pos).bind fun _ => ?_
  rw [← Nat.add_assoc]
  exact hf (pos + n)

theorem Puts.demand {cap : Nat} {l : List Demand} (h : AllMet limit l) :
    Puts limit cap (demand l) 0 := fun _ => .demand fun _ _ => h

def appendRetryFields (legacySessionIdEcho : Bytes) : WriterM Unit := do
  append [0x03, 0x03]
  append HRR_SPECIAL_RANDOM
  if legacySessionIdEcho.length > 32 then bare (throw (.err .encodeError))
  else do
    demand [.narrow 8 legacySessionIdEcho.length]
    append [UInt8.ofNat legacySessionIdEcho.length]
    append legacySessionIdEcho
    append (bigEndian 2 TLS_AES_128_GCM_SHA256)
    append [0]

def appendRetryExtensions (selectedGroup : NamedGroup) : WriterM Unit := do
  append (bigEndian 2 0x002b)
  append (bigEndian 2 2)
  append (bigEndian 2 0x0304)
  append (bigEndian 2 0x0033)
  append (bigEndian 2 2)
  append (bigEndian 2 selectedGroup.asU16)

/-- The three length fields of a HelloRetryRequest, with the differences they are made from. -/
def retryLengths (recordStart bodyStart extContentStart extContentEnd : Nat) : List Demand :=
  [.minus extContentEnd extContentStart, .narrow 16 (extContentEnd - extContentStart),
    .minus extContentEnd bodyStart, .narrow 24 (extContentEnd - bodyStart),
    .minus extContentEnd recordStart, .minus (extContentEnd - recordStart) RECORD_HEADER_LEN,
    .narrow 16 (extContentEnd - recordStart - RECORD_HEADER_LEN)]

def emitHelloRetryRequest (legacySessionIdEcho : Bytes) (selectedGroup : NamedGroup) :
    WriterM Nat := do
  let recordStart ← position
  append [ContentType.handshake.toU8, 0x03, 0x03, 0, 0]
  let hsHeaderPos ← position
  append [HandshakeType.serverHello.toU8, 0, 0, 0]
  let bodyStart ← position
  appendRetryFields legacySessionIdEcho
  let extListLenPos ← position
  append [0, 0]
  let extContentStart ← position
  appendRetryExtensions selectedGroup
  let extContentEnd ← position
  demand (retryLengths recordStart bodyStart extContentStart extContentEnd)
  patch extListLenPos (bigEndian 2 (extContentEnd - extContentStart))
  patch (hsHeaderPos + 1) (bigEndian 3 (extContentEnd - bodyStart))
  patch (recordStart + 3) (bigEndian 2 (extContentEnd - recordStart - RECORD_HEADER_LEN))
  return hsHeaderPos

@[simp] theorem erase_appendRetryFields (legacySessionIdEcho : Bytes) :
    (appendRetryFields legacySessionIdEcho).erase = Server.appendRetryFields legacySessionIdEcho := by
  simp only [appendRetryFields, erase_bind, erase_append]
  split
  next hlong => simp only [Server.appendRetryFields, if_pos hlong, erase_bare]
  next hshort =>
    simp only [Server.appendRetryFields, if_neg hshort, erase_bind, erase_append, erase_demand,
      pure_bind]

@[simp] theorem erase_appendRetryExtensions (selectedGroup : NamedGroup) :
    (appendRetryExtensions selectedGroup).erase = Server.appendRetryExtensions selectedGroup := by
  simp only [appendRetryExtensions, erase_bind, erase_append]
  rfl

theorem erase_emitHelloRetryRequest (legacySessionIdEcho : Bytes) (selectedGroup : NamedGroup) :
    (emitHelloRetryRequest legacySessionIdEcho selectedGroup).erase =
      Server.emitHelloRetryRequest legacySessionIdEcho selectedGroup := by
  simp only [emitHelloRetryRequest, erase_bind, erase_append, erase_patch,
    erase_demand, erase_appendRetryFields, erase_appendRetryExtensions, erase_pure, pure_bind]
  rfl

section Retry

variable {cap : Nat} (hlimit : 2 ^ 32 ≤ limit) (hcap : 2 * cap < limit)
include hlimit hcap

/-- A few bytes. -/
theorem append_puts {data : Bytes} (h : data.length ≤ 32) :
    Puts limit cap (append data) data.length := fun _ => append_safe hcap (by omega)

theorem appendRetryFields_puts {legacySessionIdEcho : Bytes} (h : legacySessionIdEcho.length ≤ 32) :
    Puts limit cap (appendRetryFields legacySessionIdEcho)
      (2 + (32 + (0 + (1 + (legacySessionIdEcho.length + (2 + 1)))))) := by
  have hlength : AllMet limit [.narrow 8 legacySessionIdEcho.length] := by
    simp only [allMet_cons, allMet_nil, and_true, Demand.Met]
    omega
  refine (append_puts hlimit hcap (by decide)).bind ((append_puts hlimit hcap (by decide)).bind ?_)
  rw [if_neg (Nat.not_lt.mpr h)]
  exact (Puts.demand hlength).bind <| (append_puts hlimit hcap (Nat.le_add_left _ _)).bind <|
    (append_puts hlimit hcap h).bind <| (append_puts hlimit hcap (by decide)).bind <|
    append_puts hlimit hcap (by decide)

theorem appendRetryExtensions_puts (selectedGroup : NamedGroup) :
    Puts limit cap (appendRetryExtensions selectedGroup) (2 + (2 + (2 + (2 + (2 + 2))))) := by
  have hshort : ∀ n, Puts limit cap (append (bigEndian 2 n)) 2 := by
    intro n
    have hputs := append_puts hlimit hcap (show (bigEndian 2 n).length ≤ 32 by simp)
    rwa [bigEndian_length] at hputs
  exact (hshort _).bind <| (hshort _).bind <| (hshort _).bind <| (hshort _).bind <|
    (hshort _).bind (hshort _)

/-- The message starts behind the record header and ends where the writer stands. -/
theorem emitHelloRetryRequest_safe {legacySessionIdEcho : Bytes}
    (h : legacySessionIdEcho.length ≤ 32) (selectedGroup : NamedGroup) {pos : Nat} :
    Writes limit pos cap (emitHelloRetryRequest legacySessionIdEcho selectedGroup)
      fun start w => start ≤ w.pos ∧ Inside cap w := by
  refine position_bind ((append_puts hlimit hcap (by decide) _).bind fun _ => ?_)
  refine position_bind ((append_puts hlimit hcap (by decide) _).bind fun _ => ?_)
  refine position_bind ((appendRetryFields_puts hlimit hcap h _).bind fun _ => ?_)
  refine position_bind ((append_puts hlimit hcap (by decide) _).bind fun _ => ?_)
  refine position_bind ((appendRetryExtensions_puts hlimit hcap selectedGroup _).bind fun _ => ?_)
  refine position_bind ?_
  simp only [List.length_cons, List.length_nil, Nat.zero_add, Nat.reduceAdd]
  refine Safe.bind (.demand fun _ _ => ?_) fun _ => ?_
  · simp only [retryLengths, allMet_cons, allMet_nil, and_true, Demand.Met, RECORD_HEADER_LEN]
    omega
  refine (patch_safe hcap (by rw [bigEndian_length]; omega)).bind fun _ =>
    (patch_safe hcap (by rw [bigEndian_length]; omega)).bind fun _ =>
    (patch_safe hcap (by rw [bigEndian_length]; omega)).bind fun _ => .bare fun w hw => ?_
  have hpos := hw.pos_eq
  exact ⟨by omega, hw.stands⟩

end Retry

/-- The encoder runs on the slice from `start` on. -/
def encodeFrom (start : Nat) (enc : BufferM Unit) : WriterM Nat := fun w =>
  match enc (.wrap (w.buf.drop start)) with
  | (.error e _, l) => (.error (.err e) w, .slice start w.buf.length w.buf.length :: l)
  | (.ok _ b, l) => (.ok b.len ⟨w.buf.take start ++ b.buf, start + b.len⟩,
      .slice start w.buf.length w.buf.length :: .plus start b.len :: l)

@[simp] theorem erase_encodeFrom (start : Nat) (enc : BufferM Unit) :
    (encodeFrom start enc).erase = Server.encodeFrom start enc.erase := by
  funext w
  simp only [erase, encodeFrom, Server.encodeFrom]
  rcases enc (.wrap (w.buf.drop start)) with ⟨r, l⟩
  cases r with
  | ok u b => rfl
  | error e b => rfl

theorem encodeFrom_safe {pos cap n : Nat} {enc : BufferM Unit} (hcap : 2 * cap < limit)
    (henc : ∀ cap, 2 * cap < limit →
      Safe limit (Window 0 0 cap) enc (fun _ => Window 0 n cap) fun _ _ => True) :
    Writes limit pos cap (encodeFrom pos enc) fun len w => len = n ∧ At (pos + n) cap w := by
  rintro l w ⟨hl, rfl, rfl, hinside⟩
  have hdrop : (w.buf.drop w.pos).length = w.buf.length - w.pos := List.length_drop
  have hrun := henc (w.buf.length - w.pos) (by omega) [] (.wrap (w.buf.drop w.pos))
    ⟨nofun, rfl, rfl, hdrop, Nat.zero_le _⟩
  have hslice : (Demand.slice w.pos w.buf.length w.buf.length).Met limit := ⟨hinside, le_rfl⟩
  simp only [encodeFrom]
  rcases henc' : enc (.wrap (w.buf.drop w.pos)) with ⟨r, l'⟩
  rw [henc'] at hrun
  cases r with
  | ok u b =>
      obtain ⟨hl', hoffset, hlen, hbuf, hfits⟩ := hrun
      have hplus : (Demand.plus w.pos b.len).Met limit := by
        simp only [Demand.Met]
        omega
      refine ⟨allMet_append.mpr ⟨hl, allMet_cons.mpr ⟨hslice, allMet_cons.mpr ⟨hplus, hl'⟩⟩⟩, hlen,
        by rw [hlen], ?_, by omega⟩
      rw [List.length_append, List.length_take, hbuf]
      omega
  | error e b => exact ⟨allMet_append.mpr ⟨hl, allMet_cons.mpr ⟨hslice, hrun.1⟩⟩, trivial⟩

/-- The length fields of a ServerHello. -/
def helloLengths (recordStart bodyLen stop : Nat) : List Demand :=
  [.narrow 24 bodyLen, .minus stop recordStart, .minus (stop - recordStart) RECORD_HEADER_LEN,
    .narrow 16 (stop - recordStart - RECORD_HEADER_LEN)]

def emitServerHello (config : TlsServerConfig) (legacySessionIdEcho : Bytes) (selectedIdx : Nat)
    (mode : KexMode) : WriterM Nat := do
  let recordStart ← position
  append [ContentType.handshake.toU8, 0x03, 0x03, 0, 0]
  let hsHeaderPos ← position
  append [HandshakeType.serverHello.toU8, 0, 0, 0]
  let bodyStart ← position
  demand [.push 0 4, .push 1 4, .push 2 4]
  let extensions ← bare (fromResult ((serverHelloExtensions config selectedIdx mode).mapError .err))
  let sh : ServerHelloEmit :=
    { random := config.serverRandom, legacySessionIdEcho, cipherSuite := TLS_AES_128_GCM_SHA256,
      extensions }
  let bodyLen ← encodeFrom bodyStart (GatoPskTls.Checked.encode sh)
  let stop ← position
  demand (helloLengths recordStart bodyLen stop)
  patch (hsHeaderPos + 1) (bigEndian 3 bodyLen)
  let stop ← position
  patch (recordStart + 3) (bigEndian 2 (stop - recordStart - RECORD_HEADER_LEN))
  return hsHeaderPos

theorem erase_emitServerHello (config : TlsServerConfig) (legacySessionIdEcho : Bytes)
    (selectedIdx : Nat) (mode : KexMode) :
    (emitServerHello config legacySessionIdEcho selectedIdx mode).erase =
      Server.emitServerHello config legacySessionIdEcho selectedIdx mode := by
  simp only [emitServerHello, erase_bind, erase_append, erase_patch, erase_demand, erase_pure,
    erase_bare, erase_encodeFrom, GatoPskTls.Checked.erase_encode, pure_bind]
  rfl

theorem emitServerHello_safe {cap : Nat} (hlimit : 2 ^ 32 ≤ limit) (hcap : 2 * cap < limit)
    (config : TlsServerConfig) {legacySessionIdEcho : Bytes} (h : legacySessionIdEcho.length ≤ 32)
    (selectedIdx : Nat) (mode : KexMode) {pos : Nat} :
    Writes limit pos cap (emitServerHello config legacySessionIdEcho selectedIdx mode)
      fun start w => start ≤ w.pos ∧ Inside cap w := by
  refine position_bind ((append_puts hlimit hcap (by decide) _).bind fun _ => ?_)
  refine position_bind ((append_puts hlimit hcap (by decide) _).bind fun _ => ?_)
  refine position_bind (Safe.bind (.demand fun _ _ => ?_) fun _ => ?_)
  · simp [Demand.Met]
  have hexts : Writes limit (pos + 5 + 4) cap (bare (fromResult
      ((serverHelloExtensions config selectedIdx mode).mapError .err)) : WriterM _)
      fun exts w => serverHelloExtensions config selectedIdx mode = .ok exts ∧
        At (pos + 5 + 4) cap w := by
    refine .bare fun w hw => ?_
    cases serverHelloExtensions config selectedIdx mode with
    | ok exts => exact ⟨rfl, hw⟩
    | error e => trivial
  refine hexts.bind fun exts => .of_fact fun hexts => ?_
  obtain ⟨-, hall⟩ := serverHelloExtensions_short hexts
  let sh : ServerHelloEmit := ⟨config.serverRandom, legacySessionIdEcho, TLS_AES_128_GCM_SHA256, exts⟩
  have hwire : sh.wire.length ≤ 200 := by
    simp only [sh, ServerHelloEmit.wire, List.length_append, bigEndian_length, sized_length,
      config.serverRandom.property, List.length_singleton]
    omega
  have hbody := @encodeFrom_safe limit (pos + 5 + 4) cap sh.wire.length (GatoPskTls.Checked.encode sh)
    hcap fun _ hsmall => GatoPskTls.Checked.encode_safe (by simp only [sh]; omega) hsmall
  refine hbody.bind fun len => .of_fact fun hlen => ?_
  subst hlen
  refine position_bind (Safe.bind (.demand fun _ _ => ?_) fun _ => ?_)
  · simp only [helloLengths, allMet_cons, allMet_nil, and_true, Demand.Met, RECORD_HEADER_LEN]
    omega
  refine (patch_safe hcap ?_).bind fun _ => position_bind ?_
  · simp only [bigEndian_length, List.length_cons, List.length_nil]
    omega
  refine (patch_safe hcap ?_).bind fun _ => .bare fun w hw => ?_
  · rw [bigEndian_length]
    omega
  have hpos := hw.pos_eq
  simp only [List.length_cons, List.length_nil]
  exact ⟨by omega, hw.stands⟩

end GatoPskTls.Server.Checked
