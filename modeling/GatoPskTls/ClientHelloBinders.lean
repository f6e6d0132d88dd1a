import GatoPskTls.ClientHelloMessage
import GatoPskTls.WriteBuffer

/-!
# The binders of a ClientHello

`ClientHello::finalize` counts back from the end of the encoded message, hashes what stands
before the list of binders and writes a binder for each identity over the zeros there.
-/
namespace GatoPskTls

open Stateful BigEndian CryptoBuffer Splice

variable {cs : TlsCipherSuite}

def PskBinder.encode (binder : PskBinder cs) : CryptoBuffer.M Unit := do
  orEncodeError (push (UInt8.ofNat binder.verify.val.length))
  orEncodeError (extendFromSlice binder.verify.val)

/-- The encoded message and the running transcript. -/
structure Finalizing where
  encBuf : Bytes
  transcript : Bytes
  deriving DecidableEq

namespace Finalizing

def updateTranscript (data : Bytes) (f : Finalizing) : Finalizing :=
  { f with transcript := f.transcript ++ data }

/-- `CryptoBuffer::wrap(&mut enc_buf[pos..])`. -/
def onTail (pos : Nat) (op : CryptoBuffer.M Unit) : EStateM Stop Finalizing Unit :=
  onPart (fun f => CryptoBuffer.wrap (f.encBuf.drop pos))
    (fun f b => { f with encBuf := f.encBuf.take pos ++ b.buf }) (mapError .err op)

theorem onTail_of_ok {pos : Nat} {op : CryptoBuffer.M Unit} {f : Finalizing} {b : CryptoBuffer}
    (h : op (CryptoBuffer.wrap (f.encBuf.drop pos)) = .ok () b) :
    onTail pos op f = .ok () { f with encBuf := f.encBuf.take pos ++ b.buf } :=
  onPart_of_ok (mapError_of_ok h)

theorem onTail_of_error {pos : Nat} {op : CryptoBuffer.M Unit} {f : Finalizing} {b : CryptoBuffer}
    {e : TlsError} (h : op (CryptoBuffer.wrap (f.encBuf.drop pos)) = .error e b) :
    onTail pos op f = .error (.err e) { f with encBuf := f.encBuf.take pos ++ b.buf } :=
  onPart_of_error (mapError_of_error h)

end Finalizing

namespace ClientHello

variable (hello : ClientHello cs) (P : Primitives cs) (ks : WriteKeySchedule cs)

/-- The transcript does not change between two binders. -/
def encodeBinders (transcript : Bytes) (identities : List Bytes) : CryptoBuffer.M Unit :=
  identities.forM fun _ => do
    let binder ← fromResult (KeySchedule.createPskBinder P ks transcript)
    binder.encode

def finalize : EStateM Stop Finalizing Unit := do
  match hello.config.psk with
  | some (_, identities) => do
      let f ← get
      let bindersLen := identities.length * (1 + cs.hashLen)
      let bindersPos ← fromResult (checkedSub f.encBuf.length bindersLen)
      -- the length of the list is left out with it
      let truncated ← fromResult (checkedSub bindersPos 2)
      modify (Finalizing.updateTranscript (f.encBuf.take truncated))
      let f ← get
      Finalizing.onTail bindersPos (encodeBinders P ks f.transcript identities)
      modify fun f => f.updateTranscript (f.encBuf.drop truncated)
  | none => modify fun f => f.updateTranscript f.encBuf

/-- The message up to its first binder. -/
def beforeBinders : Bytes :=
  hello.framed.wire.take (hello.framed.wire.length - hello.config.identities.length * (1 + cs.hashLen))

/-- What the binders are computed over. -/
def truncated : Bytes := hello.beforeBinders.take (hello.beforeBinders.length - 2)

/-- One binder for each identity. -/
def binders (transcript : Bytes) : Except TlsError (List (PskBinder cs)) :=
  hello.config.identities.mapM fun _ => KeySchedule.createPskBinder P ks (transcript ++ hello.truncated)

/-- The message with its binders. -/
def finalized (binders : List (PskBinder cs)) : Bytes :=
  hello.beforeBinders ++ binders.flatMap fun binder => sized 1 binder.verify.val

end ClientHello

theorem PskBinder.appends_encode (binder : PskBinder cs) :
    Appends binder.encode (sized 1 binder.verify.val) := by
  have hwire : sized 1 binder.verify.val =
      [UInt8.ofNat binder.verify.val.length] ++ binder.verify.val := by
    simp [sized, bigEndian]
  rw [hwire]
  exact (appends_pushByte _).bind ((appends_extendFromSlice _).mapError _)

namespace ClientHello

variable {hello : ClientHello cs} {P : Primitives cs} {ks : WriteKeySchedule cs}
  {transcript : Bytes}

theorem appends_encodeBinders (ids : List Bytes) {bs : List (PskBinder cs)}
    (h : (ids.mapM fun _ => KeySchedule.createPskBinder P ks transcript) = .ok bs) :
    Appends (encodeBinders P ks transcript ids)
      (bs.flatMap fun binder => sized 1 binder.verify.val) := by
  induction ids generalizing bs with
  | nil =>
      cases h
      exact .pure_nil
  | cons id ids ih =>
      rw [List.mapM_cons, except_bind_eq_ok] at h
      obtain ⟨binder, hbinder, h⟩ := h
      obtain ⟨rest, hrest, ⟨⟩⟩ := except_bind_eq_ok.mp h
      have hhead : Appends (do
          let binder ← fromResult (KeySchedule.createPskBinder P ks transcript)
          binder.encode) (sized 1 binder.verify.val) := by
        rw [hbinder]
        exact binder.appends_encode
      exact hhead.bind (ih hrest)

/-- The first binder is the one that fails. -/
theorem createPskBinder_of_mapM_error {ids : List Bytes} {e : TlsError}
    (h : (ids.mapM fun _ => KeySchedule.createPskBinder P ks transcript) = .error e) :
    KeySchedule.createPskBinder P ks transcript = .error e ∧ ids ≠ [] := by
  induction ids with
  | nil => cases h
  | cons id ids ih =>
      rw [List.mapM_cons] at h
      cases hcreate : KeySchedule.createPskBinder P ks transcript with
      | error e' =>
          rw [hcreate, error_bind] at h
          cases h
          exact ⟨rfl, List.cons_ne_nil _ _⟩
      | ok binder =>
          rw [hcreate, ok_bind] at h
          cases hrest : (ids.mapM fun _ => Except.ok binder : Except TlsError _) with
          | error e' =>
              rw [hrest, error_bind] at h
              cases h
              have := (ih (by rw [hcreate]; exact hrest)).1
              rw [hcreate] at this
              cases this
          | ok rest =>
              rw [hrest, ok_bind] at h
              cases h

theorem encodeBinders_of_error {ids : List Bytes} {e : TlsError}
    (h : (ids.mapM fun _ => KeySchedule.createPskBinder P ks transcript) = .error e)
    (b : CryptoBuffer) : encodeBinders P ks transcript ids b = .error e b := by
  obtain ⟨hcreate, hids⟩ := createPskBinder_of_mapM_error h
  obtain ⟨id, rest, rfl⟩ := List.exists_cons_of_ne_nil hids
  refine bind_of_error ?_
  rw [hcreate]
  rfl

theorem binders_length {ids : List Bytes} {bs : List (PskBinder cs)}
    (h : (ids.mapM fun _ => KeySchedule.createPskBinder P ks transcript) = .ok bs) :
    bs.length = ids.length := by
  induction ids generalizing bs with
  | nil =>
      cases h
      rfl
  | cons id ids ih =>
      rw [List.mapM_cons, except_bind_eq_ok] at h
      obtain ⟨binder, hbinder, h⟩ := h
      obtain ⟨rest, hrest, ⟨⟩⟩ := except_bind_eq_ok.mp h
      rw [List.length_cons, List.length_cons, ih hrest]

theorem bindersWire_length (bs : List (PskBinder cs)) :
    (bs.flatMap fun binder => sized 1 binder.verify.val).length = bs.length * (1 + cs.hashLen) := by
  have hlen : ∀ binder : PskBinder cs, binder.verify.val.length = cs.hashLen :=
    fun binder => binder.verify.property
  simp [List.length_flatMap, hlen, Nat.mul_add]

/-- The binders are at the end of a message that has more in front of them. -/
theorem bindersLen_le (hello : ClientHello cs) :
    hello.config.identities.length * (1 + cs.hashLen) + 47 ≤ hello.framed.wire.length := by
  rw [framed_length, extensionsLength, TlsConfig.identities]
  cases hello.config.psk with
  | none => simp
  | some psk =>
      simp only [Option.map_some, Option.getD_some, Option.elim_some]
      rw [Nat.mul_comm]
      omega

theorem beforeBinders_length (hello : ClientHello cs) :
    hello.beforeBinders.length + hello.config.identities.length * (1 + cs.hashLen) =
      hello.framed.wire.length := by
  have := hello.bindersLen_le
  rw [beforeBinders, List.length_take]
  omega

theorem take_beforeBinders (hello : ClientHello cs) :
    hello.framed.wire.take hello.beforeBinders.length = hello.beforeBinders := by
  rw [beforeBinders, List.length_take, Nat.min_eq_left (Nat.sub_le _ _)]

theorem truncated_append (hello : ClientHello cs) (more : Bytes) :
    hello.truncated ++ (hello.beforeBinders ++ more).drop (hello.beforeBinders.length - 2) =
      hello.beforeBinders ++ more := by
  rw [truncated, List.drop_append_of_le_length (Nat.sub_le _ _), ← List.append_assoc,
    List.take_append_drop]

theorem finalize_of_none (hpsk : hello.config.psk = none) (f : Finalizing) :
    hello.finalize P ks f = .ok () (f.updateTranscript f.encBuf) := by
  simp only [finalize, hpsk, modify_apply]

/-- The steps of `finalize` on an encoded message, up to the binders. -/
theorem finalize_step {secret : Bytes} {ids : List Bytes}
    (hpsk : hello.config.psk = some (secret, ids)) :
    hello.finalize P ks ⟨hello.framed.wire, transcript⟩ =
      (do
        Finalizing.onTail hello.beforeBinders.length
          (encodeBinders P ks (transcript ++ hello.truncated) ids)
        modify fun f : Finalizing =>
          f.updateTranscript (f.encBuf.drop (hello.beforeBinders.length - 2)))
        ⟨hello.framed.wire, transcript ++ hello.truncated⟩ := by
  have hids : hello.config.identities = ids := by simp [TlsConfig.identities, hpsk]
  have hlen := hello.bindersLen_le
  have hbefore := hello.beforeBinders_length
  rw [hids] at hlen hbefore
  have hpos : checkedSub hello.framed.wire.length (ids.length * (1 + cs.hashLen)) =
      .ok hello.beforeBinders.length := by
    rw [checkedSub, if_pos (by omega), ← hbefore, Nat.add_sub_cancel]
  have htwo : checkedSub hello.beforeBinders.length 2 = .ok (hello.beforeBinders.length - 2) := by
    rw [checkedSub, if_pos (by omega)]
  have htake : hello.framed.wire.take (hello.beforeBinders.length - 2) = hello.truncated := by
    rw [truncated, ← hello.take_beforeBinders, List.take_take, take_beforeBinders,
      Nat.min_eq_left (Nat.sub_le _ _)]
  simp only [finalize, hpsk, get_bind_apply, hpos, fromResult_ok_bind, htwo, modify_bind_apply,
    Finalizing.updateTranscript, htake]

/-- With a binder for each identity the message is complete, and all of it is in the
transcript. -/
theorem finalize_of_ok {bs : List (PskBinder cs)} (h : hello.binders P ks transcript = .ok bs) :
    hello.finalize P ks ⟨hello.framed.wire, transcript⟩ =
      .ok () ⟨hello.finalized bs, transcript ++ hello.finalized bs⟩ := by
  cases hpsk : hello.config.psk with
  | none =>
      have hids : hello.config.identities = [] := by simp [TlsConfig.identities, hpsk]
      rw [binders, hids] at h
      cases h
      rw [finalize_of_none hpsk, finalized, beforeBinders, hids]
      simp [Finalizing.updateTranscript]
  | some psk =>
      obtain ⟨secret, ids⟩ := psk
      have hids : hello.config.identities = ids := by simp [TlsConfig.identities, hpsk]
      rw [binders, hids] at h
      have hbefore := hello.beforeBinders_length
      rw [hids] at hbefore
      let w := bs.flatMap fun binder => sized 1 binder.verify.val
      let tail := CryptoBuffer.wrap (hello.framed.wire.drop hello.beforeBinders.length)
      have hw : w.length = (hello.framed.wire.drop hello.beforeBinders.length).length := by
        rw [bindersWire_length, binders_length h, List.length_drop]
        omega
      have hwritten : encodeBinders P ks (transcript ++ hello.truncated) ids tail =
          .ok () (tail.appended w) :=
        (appends_encodeBinders ids h).ok (Nat.zero_le _) (Nat.le_of_eq hw)
      have htail : (tail.appended w).buf = w := by
        simp only [tail, CryptoBuffer.appended, CryptoBuffer.wrap, splice, Nat.zero_add,
          List.take_zero, List.nil_append, List.drop_of_length_le (Nat.le_of_eq hw.symm),
          List.append_nil]
      rw [finalize_step hpsk, bind_of_ok (Finalizing.onTail_of_ok hwritten), modify_apply]
      simp only [Finalizing.updateTranscript, htail, take_beforeBinders, List.append_assoc,
        truncated_append]
      rfl

theorem finalize_of_error {e : TlsError} (h : hello.binders P ks transcript = .error e) :
    ∃ f, hello.finalize P ks ⟨hello.framed.wire, transcript⟩ = .error (.err e) f := by
  cases hpsk : hello.config.psk with
  | none =>
      rw [binders, TlsConfig.identities, hpsk] at h
      cases h
  | some psk =>
      obtain ⟨secret, ids⟩ := psk
      rw [binders, TlsConfig.identities, hpsk] at h
      rw [finalize_step hpsk]
      exact ⟨_, bind_of_error (Finalizing.onTail_of_error (encodeBinders_of_error h _))⟩

end ClientHello

end GatoPskTls
