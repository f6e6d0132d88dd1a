import GatoPskTls.Server.Calls
import GatoPskTls.Server.Decrypt
import GatoPskTls.Server.Peer

/-!
# Server: decryption in the caller's buffer

A session whose decrypt functions work in the buffer the caller lends them, with whatever an
earlier record has left in it. It answers every history as the session that has no buffer does.
-/
namespace GatoPskTls.Server

open GatoPskTls Stateful History

variable {cs : TlsCipherSuite} {P : Primitives cs} {X : X25519}

/-- The call with nothing in the buffer it lends. -/
def Call.blank : Call → Call
  | .decryptAppData record buffer => .decryptAppData record (List.replicate buffer.length 0)
  | .decryptAppDataOrAlert record buffer =>
      .decryptAppDataOrAlert record (List.replicate buffer.length 0)
  | call => call

namespace Session

/-- One call. -/
def stepInPlace (P : Primitives cs) (X : X25519) (s : Session cs) : Call → Answer × Session cs
  | .decryptAppData record buffer =>
      let r := Opening.decryptApplicationData P record ⟨s.schedule, buffer⟩
      (.bytes (outcome r), { s with schedule := (after r).schedule })
  | .decryptAppDataOrAlert record buffer =>
      let r := Opening.decryptAppDataOrAlert P record ⟨s.schedule, buffer⟩
      (.dataOrAlert (outcome r), { s with schedule := (after r).schedule })
  | call => step P X s call

/-- Whatever is in the buffer, the answer and the session are the same. -/
theorem stepInPlace_eq (s : Session cs) (call : Call) :
    stepInPlace P X s call = step P X s call.blank := by
  have hblank : ∀ record buffer : Bytes, openPayload P record (List.replicate buffer.length 0) =
      openPayload P record buffer := by
    intro record buffer
    funext ks
    rw [openPayload_eq, openPayload_eq, List.length_replicate]
  cases call with
  | decryptAppData record buffer =>
      simp only [stepInPlace, Call.blank, step, decryptAppData, hblank]
      have halike := @Opening.decryptApplicationData_alike cs P record s buffer
      exact Prod.ext (congrArg Answer.bytes halike.outcome_eq)
        (Session.ext halike.after (keeps_decryptAppData record buffer s).hrrState.symm)
  | decryptAppDataOrAlert record buffer =>
      simp only [stepInPlace, Call.blank, step, decryptAppDataOrAlert, hblank]
      have halike := @Opening.decryptAppDataOrAlert_alike cs P record s buffer
      exact Prod.ext (congrArg Answer.dataOrAlert halike.outcome_eq)
        (Session.ext halike.after (keeps_decryptAppDataOrAlert record buffer s).hrrState.symm)
  | _ => rfl

end Session

/-- Over any history, with any bytes left in the buffers, the session that decrypts in place
answers as the one that has no buffer. -/
theorem inPlace_refines {s₀ s : Session cs} {h : List (Event (Session cs) Call Answer)}
    (hr : Reaches (Session.stepInPlace P X) s₀ h s) :
    Reaches (Session.step P X) s₀ (h.map fun e => { e with call := e.call.blank }) s := by
  induction hr with
  | nil => exact .nil
  | @call h s call hr ih =>
      rw [List.map_cons, Session.stepInPlace_eq]
      exact .call call.blank ih

namespace Peer

/-- What a new session answers to three bytes and to one more: records it opens itself, since all
its keys are zero. -/
def longRecord : Bytes := (Session.step suite additive .new (.encryptAppData [1, 2, 3] room)).1.carried

def shortRecord : Bytes :=
  (Session.step suite additive (Session.step suite additive .new (.encryptAppData [1, 2, 3] room)).2
    (.encryptAppData [0x68] room)).1.carried

/-- The buffer once the longer record has been opened in it. -/
def usedBuffer : Bytes :=
  (after (Opening.decryptApplicationData suite longRecord
    ⟨(Session.new : Session .aes128GcmSha256).schedule, List.replicate 40 0xff⟩)).plaintextBuf

/-- Both records are opened in one buffer. -/
def sharing : List Call :=
  [.decryptAppData longRecord (List.replicate 40 0xff), .decryptAppDataOrAlert shortRecord usedBuffer]

def shared : List (Event (Session .aes128GcmSha256) Call Answer) × Session .aes128GcmSha256 :=
  runAll (Session.stepInPlace suite additive) ([], .new) sharing

theorem shared_reaches : Reaches (Session.stepInPlace suite additive) .new shared.1 shared.2 := by
  unfold shared
  exact runAll_reaches .nil _

end Peer

open Peer in
theorem reused_buffer_refined :
    usedBuffer.take 3 = [1, 2, 3] ∧
      shared.1.map (·.out) = [.dataOrAlert (.ok (.appData [0x68])), .bytes (.ok [1, 2, 3])] ∧
      Reaches (Session.step suite additive) .new
        (shared.1.map fun e => { e with call := e.call.blank }) shared.2 :=
  ⟨by decide +kernel, by decide +kernel, inPlace_refines shared_reaches⟩

end GatoPskTls.Server
