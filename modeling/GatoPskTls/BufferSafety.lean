import GatoPskTls.Lib.Demands
import GatoPskTls.ServerHello

/-!
# Buffers: what encoders ask

The operations of a crypto buffer and the ServerHello encoder once more, with every index, slice,
difference and length field they use. A window inside its buffer meets everything asked, and
nothing an encoder does leads out of it.
-/
namespace GatoPskTls.Checked

open GatoPskTls Stateful BigEndian Splice Tracing Traced Demands

abbrev BufferM := Traced Demand TlsError CryptoBuffer

/-- The window from `offset` on, of `len` bytes, in a buffer of `cap` bytes. -/
structure Window (offset len cap : Nat) (b : CryptoBuffer) : Prop where
  offset_eq : b.offset = offset
  len_eq : b.len = len
  cap_eq : b.buf.length = cap
  inside : offset + len ≤ cap

/-- Everything asked is met, and a success has written `n` bytes. -/
def Grows (limit : Nat) (x : BufferM Unit) (n : Nat) : Prop :=
  ∀ offset len cap, 2 * cap < limit → Safe limit (Window offset len cap) x
    (fun _ => Window offset (len + n) cap) fun _ _ => True

variable {limit n m : Nat}

theorem Grows.bind {x : BufferM Unit} {f : Unit → BufferM Unit} (hx : Grows limit x n)
    (hf : Grows limit (f ()) m) : Grows limit (x >>= f) (n + m) := by
  intro offset len cap hcap
  refine (hx offset len cap hcap).bind fun _ => ?_
  rw [← Nat.add_assoc]
  exact hf offset (len + n) cap hcap

theorem Grows.mapError {x : BufferM Unit} (g : TlsError → TlsError) (hx : Grows limit x n) :
    Grows limit (.mapError g x) n :=
  fun offset len cap hcap => (hx offset len cap hcap).mapError fun _ _ _ => trivial

def spaceDemands (b : CryptoBuffer) : List Demand :=
  [.plus b.offset b.len, .minus b.capacity (b.offset + b.len)]

theorem spaceDemands_met {offset len cap : Nat} {b : CryptoBuffer} (hcap : 2 * cap < limit)
    (hb : Window offset len cap b) : AllMet limit (spaceDemands b) := by
  obtain ⟨rfl, rfl, rfl, hinside⟩ := hb
  simp only [spaceDemands, allMet_cons, allMet_nil, and_true, Demand.Met, CryptoBuffer.capacity]
  omega

def push (byte : UInt8) : BufferM Unit :=
  asking (fun b => spaceDemands b ++
    if b.space > 0 then [.index (b.offset + b.len) b.capacity, .plus b.len 1] else [])
    (CryptoBuffer.push byte)

theorem push_grows (byte : UInt8) : Grows limit (push byte) 1 := by
  refine fun offset len cap hcap => .asking fun b hb => ?_
  have hspace := spaceDemands_met hcap hb
  obtain ⟨rfl, rfl, rfl, hinside⟩ := hb
  simp only [CryptoBuffer.push]
  split
  next hroom =>
    simp only [CryptoBuffer.space, CryptoBuffer.capacity] at hroom
    refine ⟨allMet_append.mpr ⟨hspace, ?_⟩, rfl, rfl, List.length_set, by omega⟩
    simp only [allMet_cons, allMet_nil, and_true, Demand.Met, CryptoBuffer.capacity]
    omega
  next => exact ⟨allMet_append.mpr ⟨hspace, allMet_nil limit⟩, trivial⟩

def extendDemands (n : Nat) (b : CryptoBuffer) : List Demand :=
  let start := b.offset + b.len
  spaceDemands b ++ if b.space < n then [] else
    [.plus start n, .slice start (start + n) b.capacity, .copy (start + n - start) n, .plus b.len n]

theorem extendDemands_met {offset len cap : Nat} {b : CryptoBuffer} (hcap : 2 * cap < limit)
    (hb : Window offset len cap b) : AllMet limit (extendDemands n b) := by
  have hspace := spaceDemands_met hcap hb
  obtain ⟨rfl, rfl, rfl, hinside⟩ := hb
  simp only [extendDemands]
  split
  next => exact allMet_append.mpr ⟨hspace, allMet_nil limit⟩
  next hroom =>
    simp only [CryptoBuffer.space, CryptoBuffer.capacity] at hroom
    refine allMet_append.mpr ⟨hspace, ?_⟩
    simp only [allMet_cons, allMet_nil, and_true, Demand.Met, CryptoBuffer.capacity]
    omega

def extendFromSlice (other : Bytes) : BufferM Unit :=
  asking (extendDemands other.length) (CryptoBuffer.extendFromSlice other)

theorem extendFromSlice_grows (other : Bytes) : Grows limit (extendFromSlice other) other.length := by
  refine fun offset len cap hcap => .asking fun b hb => ⟨extendDemands_met hcap hb, ?_⟩
  obtain ⟨rfl, rfl, rfl, hinside⟩ := hb
  simp only [CryptoBuffer.extendFromSlice]
  split
  next => trivial
  next hroom =>
    simp only [CryptoBuffer.space, CryptoBuffer.capacity] at hroom
    exact ⟨rfl, rfl, splice_length (by omega), by omega⟩

def setAt (idx : Nat) (val : UInt8) : BufferM Unit :=
  asking (fun b => if idx < b.len then [.plus b.offset idx, .index (b.offset + idx) b.capacity] else [])
    (CryptoBuffer.setAt idx val)

def setBytes : Nat → Bytes → BufferM Unit
  | _, [] => pure ()
  | idx, val :: vals => do
      setAt idx val
      demand [.plus idx 1]
      setBytes (idx + 1) vals

theorem erase_setBytes (idx : Nat) (vals : Bytes) :
    (setBytes idx vals).erase = CryptoBuffer.setBytes idx vals := by
  induction vals generalizing idx with
  | nil => rfl
  | cons val vals ih =>
      simp only [setBytes, setAt, erase_bind, erase_asking, erase_demand, ih, pure_bind]
      rfl

/-- Bytes inside the window are overwritten. -/
theorem setBytes_safe {offset len cap : Nat} (hcap : 2 * cap < limit) {idx : Nat} {vals : Bytes}
    (hfit : idx + vals.length ≤ len) : Safe limit (Window offset len cap) (setBytes idx vals)
      (fun _ => Window offset len cap) fun _ _ => True := by
  induction vals generalizing idx with
  | nil => exact .bare fun _ hb => hb
  | cons val vals ih =>
      rw [List.length_cons] at hfit
      have hset : Safe limit (Window offset len cap) (setAt idx val) (fun _ => Window offset len cap)
          fun _ _ => True := by
        refine .asking fun b hb => ?_
        obtain ⟨rfl, rfl, rfl, hinside⟩ := hb
        rw [CryptoBuffer.setAt, if_pos (by omega), if_pos (by omega)]
        refine ⟨?_, rfl, rfl, List.length_set, hinside⟩
        simp only [allMet_cons, allMet_nil, and_true, Demand.Met, CryptoBuffer.capacity]
        omega
      refine hset.bind fun _ => (Safe.demand fun b hb => ?_).bind fun _ => ih (by omega)
      have hinside := hb.inside
      simp only [allMet_cons, allMet_nil, and_true, Demand.Met]
      omega

/-- A length that fits its field. -/
def withLength (w : Nat) (placeholder op : BufferM Unit) : BufferM Unit := do
  let lenPos := (← bare get).len
  placeholder
  let start := (← bare get).len
  op
  let stop := (← bare get).len
  demand [.minus stop start, .narrow (8 * w) (stop - start)]
  setBytes lenPos (bigEndian w (stop - start))

theorem erase_withLength (w : Nat) (placeholder op : BufferM Unit) :
    (withLength w placeholder op).erase = CryptoBuffer.withLength w placeholder.erase op.erase := by
  simp only [withLength, erase_bind, erase_bare, erase_demand, erase_setBytes, pure_bind]
  rfl

theorem withLength_grows {w : Nat} {placeholder op : BufferM Unit} (hp : Grows limit placeholder w)
    (ho : Grows limit op n) (hn : n < 2 ^ (8 * w)) :
    Grows limit (withLength w placeholder op) (w + n) := by
  intro offset len cap hcap
  refine .get_bind fun b₀ hb₀ => ((hp offset len cap hcap).starting hb₀).bind fun _ =>
    .get_bind fun b₁ hb₁ => ((ho offset (len + w) cap hcap).starting hb₁).bind fun _ =>
    .get_bind fun b₂ hb₂ => ?_
  rw [← Nat.add_assoc]
  refine (Safe.demand fun b hb => ?_).bind fun _ => (setBytes_safe hcap ?_).starting hb₂
  · simp only [allMet_cons, allMet_nil, and_true, Demand.Met, hb₁.len_eq, hb₂.len_eq]
    exact ⟨by omega, by rwa [Nat.add_sub_cancel_left]⟩
  · rw [hb₀.len_eq, bigEndian_length]
    omega

section InPlace

variable {cs : TlsCipherSuite} (P : Primitives cs) (key : GenericArray cs.keyLen)
  (nonce : GenericArray cs.ivLen) (aad : Bytes)

/-- `as_slice` and `as_mut_slice`. -/
def sliceDemands (b : CryptoBuffer) : List Demand :=
  [.plus b.offset b.len, .slice b.offset (b.offset + b.len) b.capacity]

theorem sliceDemands_met {offset len cap : Nat} {b : CryptoBuffer} (hcap : 2 * cap < limit)
    (hb : Window offset len cap b) : AllMet limit (sliceDemands b) := by
  obtain ⟨rfl, rfl, rfl, hinside⟩ := hb
  simp only [sliceDemands, allMet_cons, allMet_nil, and_true, Demand.Met, CryptoBuffer.capacity]
  omega

/-- The tag is appended behind the window. -/
def encryptInPlace : BufferM Unit :=
  asking (fun b => sliceDemands b ++ extendDemands cs.tagSize b)
    (CryptoBuffer.encryptInPlace P key nonce aad)

theorem encryptInPlace_grows : Grows limit (encryptInPlace P key nonce aad) cs.tagSize := by
  refine fun offset len cap hcap => .asking fun b hb =>
    ⟨allMet_append.mpr ⟨sliceDemands_met hcap hb, extendDemands_met hcap hb⟩, ?_⟩
  obtain ⟨rfl, rfl, rfl, hinside⟩ := hb
  cases hseal : P.aeadSeal key nonce aad b.asSlice with
  | none =>
      rw [CryptoBuffer.encryptInPlace_of_none hseal]
      trivial
  | some ciphertext =>
      have hlen := P.aeadSeal_length hseal
      rw [CryptoBuffer.asSlice_length hinside] at hlen
      have hbuf : (splice b.buf b.offset (ciphertext.take b.len)).length = b.buf.length :=
        splice_length (by simp; omega)
      simp only [CryptoBuffer.encryptInPlace, get_bind_apply, hseal, set_bind_apply,
        CryptoBuffer.extendFromSlice]
      split
      next => trivial
      next hroom =>
        simp only [CryptoBuffer.space, CryptoBuffer.capacity, hbuf, List.length_drop] at hroom
        have htag : (ciphertext.drop b.len).length = cs.tagSize := by simp; omega
        refine ⟨rfl, by simp only [htag], ?_, by omega⟩
        rw [splice_length (by simp only [hbuf, htag]; omega), hbuf]

def decryptInPlace : BufferM Unit :=
  asking (fun b => sliceDemands b ++ [.minus b.capacity b.offset])
    (CryptoBuffer.decryptInPlace P key nonce aad)

theorem decryptInPlace_safe {offset len cap : Nat} (hcap : 2 * cap < limit) :
    Safe limit (Window offset len cap) (decryptInPlace P key nonce aad)
      (fun _ b => Window offset b.len cap b ∧ b.len ≤ len) fun _ _ => True := by
  refine .asking fun b hb => ⟨allMet_append.mpr ⟨sliceDemands_met hcap hb, ?_⟩, ?_⟩
  · obtain ⟨rfl, rfl, rfl, hinside⟩ := hb
    simp only [allMet_cons, allMet_nil, and_true, Demand.Met, CryptoBuffer.capacity]
    omega
  · obtain ⟨rfl, rfl, rfl, hinside⟩ := hb
    rw [CryptoBuffer.decryptInPlace_eq hinside]
    cases hopen : P.aeadOpen key nonce aad b.asSlice with
    | none => trivial
    | some plaintext =>
        have hlen := P.aeadOpen_length hopen
        rw [CryptoBuffer.asSlice_length hinside] at hlen
        exact ⟨⟨rfl, rfl, splice_length (by omega), show b.offset + plaintext.length ≤ _ by omega⟩,
          show plaintext.length ≤ b.len by omega⟩

/-- `get_nonce`: the counter is padded from the back, then combined with the IV. -/
def nonceDemands (cs : TlsCipherSuite) : List Demand :=
  (List.range 8).flatMap (fun i => [.minus cs.ivLen i, .minus (cs.ivLen - i) 1,
    .index (cs.ivLen - i - 1) cs.ivLen]) ++
  .slice 0 cs.ivLen cs.ivLen :: (List.range cs.ivLen).map fun i => .index i cs.ivLen

theorem nonceDemands_met : AllMet limit (nonceDemands cs) := by
  refine allMet_append.mpr ⟨fun d hd => ?_, allMet_cons.mpr ⟨⟨Nat.zero_le _, le_rfl⟩, fun d hd => ?_⟩⟩
  · obtain ⟨i, hi, hd⟩ := List.mem_flatMap.mp hd
    rw [List.mem_range] at hi
    have hturn : AllMet limit [.minus cs.ivLen i, .minus (cs.ivLen - i) 1,
        .index (cs.ivLen - i - 1) cs.ivLen] := by
      simp only [allMet_cons, allMet_nil, and_true, Demand.Met, TlsCipherSuite.ivLen]
      omega
    exact hturn d hd
  · obtain ⟨i, hi, rfl⟩ := List.mem_map.mp hd
    exact List.mem_range.mp hi

end InPlace

def pushU16 (num : Nat) : BufferM Unit := extendFromSlice (bigEndian 2 num)

theorem pushU16_grows (num : Nat) : Grows limit (pushU16 num) 2 := by
  have h := @extendFromSlice_grows limit (bigEndian 2 num)
  rwa [bigEndian_length] at h

def orEncodeError (x : BufferM Unit) : BufferM Unit := .mapError (fun _ => .encodeError) x

def withU16Length (op : BufferM Unit) : BufferM Unit := withLength 2 (pushU16 0) op

theorem withU16Length_grows {op : BufferM Unit} (ho : Grows limit op n) (hn : n < 2 ^ 16) :
    Grows limit (withU16Length op) (2 + n) := withLength_grows (pushU16_grows 0) ho hn

def encodeData : ServerHelloExtension → BufferM Unit
  | .keyShare data => do
      orEncodeError (pushU16 data.entry.group.asU16)
      orEncodeError (withU16Length (extendFromSlice data.entry.opaqueBytes))
  | .preSharedKey data => orEncodeError (pushU16 data.selectedIdentity)
  | .cookie data => extendFromSlice data.data
  | .supportedVersions data => orEncodeError (pushU16 data.selectedVersion.code)

theorem erase_encodeData (ext : ServerHelloExtension) : (encodeData ext).erase = ext.encodeData := by
  cases ext with
  | keyShare data =>
      simp only [encodeData, orEncodeError, withU16Length, erase_bind, erase_mapError, erase_withLength]
      rfl
  | preSharedKey data => exact erase_mapError _ _
  | cookie data => rfl
  | supportedVersions data => exact erase_mapError _ _

def encodeExtension (ext : ServerHelloExtension) : BufferM Unit := do
  orEncodeError (pushU16 ext.extensionType.toU16)
  withU16Length (encodeData ext)

theorem erase_encodeExtension (ext : ServerHelloExtension) :
    (encodeExtension ext).erase = ext.encode := by
  simp only [encodeExtension, orEncodeError, withU16Length, erase_bind, erase_mapError,
    erase_withLength, erase_encodeData]
  rfl

theorem encodeData_grows {ext : ServerHelloExtension} (h : ext.dataWire.length < 2 ^ 16) :
    Grows limit (encodeData ext) ext.dataWire.length := by
  cases ext with
  | keyShare data =>
      simp only [ServerHelloExtension.dataWire, List.length_append, bigEndian_length,
        sized_length] at h ⊢
      exact ((pushU16_grows _).mapError _).bind
        ((withU16Length_grows (extendFromSlice_grows _) (by omega)).mapError _)
  | preSharedKey data => exact (extendFromSlice_grows _).mapError _
  | cookie data => exact extendFromSlice_grows _
  | supportedVersions data => exact (extendFromSlice_grows _).mapError _

theorem encodeExtension_grows {ext : ServerHelloExtension} (h : ext.wire.length < 2 ^ 16) :
    Grows limit (encodeExtension ext) ext.wire.length := by
  simp only [ServerHelloExtension.wire, List.length_append, bigEndian_length, sized_length] at h ⊢
  have hdata : ext.dataWire.length < 2 ^ 16 := by omega
  exact ((pushU16_grows _).mapError _).bind (withU16Length_grows (encodeData_grows hdata) hdata)

def encodeExtensions : List ServerHelloExtension → BufferM Unit
  | [] => pure ()
  | ext :: exts => do
      encodeExtension ext
      encodeExtensions exts

theorem erase_encodeExtensions (exts : List ServerHelloExtension) :
    (encodeExtensions exts).erase = exts.forM ServerHelloExtension.encode := by
  induction exts with
  | nil => rfl
  | cons ext exts ih =>
      simp only [encodeExtensions, erase_bind, erase_encodeExtension, ih]
      rfl

theorem encodeExtensions_grows {exts : List ServerHelloExtension}
    (h : (exts.flatMap ServerHelloExtension.wire).length < 2 ^ 16) :
    Grows limit (encodeExtensions exts) (exts.flatMap ServerHelloExtension.wire).length := by
  induction exts with
  | nil => exact fun offset len cap _ => .bare fun _ hb => hb
  | cons ext exts ih =>
      rw [List.flatMap_cons, List.length_append] at h ⊢
      exact (encodeExtension_grows (by omega)).bind (ih (by omega))

def encodeFields (sh : ServerHelloEmit) : BufferM Unit := do
  orEncodeError (pushU16 0x0303)
  orEncodeError (extendFromSlice sh.random.val)
  demand [.narrow 8 sh.legacySessionIdEcho.length]
  orEncodeError (push (UInt8.ofNat sh.legacySessionIdEcho.length))
  orEncodeError (extendFromSlice sh.legacySessionIdEcho)
  orEncodeError (pushU16 sh.cipherSuite)
  orEncodeError (push 0)
  withU16Length (encodeExtensions sh.extensions)

def encode (sh : ServerHelloEmit) : BufferM Unit :=
  if sh.legacySessionIdEcho.length > 32 then bare (throw .encodeError) else encodeFields sh

theorem erase_encode (sh : ServerHelloEmit) : (encode sh).erase = sh.encode := by
  have hfields : (encodeFields sh).erase = sh.encodeFields := by
    simp only [encodeFields, orEncodeError, withU16Length, erase_bind, erase_mapError, erase_demand,
      pure_bind, erase_withLength, erase_encodeExtensions]
    rfl
  rw [encode, ServerHelloEmit.encode, ← hfields]
  split <;> rfl

theorem encode_safe {sh : ServerHelloEmit}
    (hall : (sh.extensions.flatMap ServerHelloExtension.wire).length < 2 ^ 16) {cap : Nat}
    (hcap : 2 * cap < limit) : Safe limit (Window 0 0 cap) (encode sh)
      (fun _ => Window 0 sh.wire.length cap) fun _ _ => True := by
  rw [encode]
  split
  · exact .bare fun _ _ => trivial
  next hsid =>
    have hlen : Grows limit (demand [.narrow 8 sh.legacySessionIdEcho.length]) 0 := by
      refine fun offset len cap _ => .demand fun b hb => ?_
      simp only [allMet_cons, allMet_nil, and_true, Demand.Met]
      omega
    have hgrows : Grows limit (encodeFields sh) sh.wire.length := by
      have hrandom := @extendFromSlice_grows limit sh.random.val
      rw [sh.random.property] at hrandom
      rw [show sh.wire.length = 2 + (32 + (0 + (1 + (sh.legacySessionIdEcho.length + (2 + (1 + (2 +
        (sh.extensions.flatMap ServerHelloExtension.wire).length))))))) by
          simp only [ServerHelloEmit.wire, List.length_append, bigEndian_length, sized_length,
            sh.random.property, List.length_singleton]
          omega]
      exact ((pushU16_grows _).mapError _).bind <| (hrandom.mapError _).bind <|
        hlen.bind <| ((push_grows _).mapError _).bind <| ((extendFromSlice_grows _).mapError _).bind <|
        ((pushU16_grows _).mapError _).bind <| ((push_grows 0).mapError _).bind <|
        withU16Length_grows (encodeExtensions_grows hall) hall
    have hsafe := hgrows 0 0 cap hcap
    rwa [Nat.zero_add] at hsafe

end GatoPskTls.Checked
