import GatoPskTls.Lib.History
import GatoPskTls.PkiChain

/-!
# What a CertificateVerify is checked against

The verifier keeps the last certificate message it accepted as raw bytes, and the transcript that
came with it until a CertificateVerify takes it. Over every sequence of calls the two belong
together.
-/
namespace GatoPskTls

open Stateful ParseBuffer History

/-- A certificate message as it comes from the parser. -/
structure CertificateMessage where
  cert : CertificateRef
  parsed : ∃ b b', CertificateRef.parse b = .ok cert b'

/-- The copy the verifier keeps of it. -/
def CertificateMessage.copy (message : CertificateMessage) : Certificate :=
  ⟨message.cert.requestContext, message.cert.rawEntries⟩

/-- The copy is parsed to what it was made from. -/
theorem CertificateMessage.tryFrom_copy (message : CertificateMessage) :
    CertificateRef.tryFrom message.copy = .ok message.cert := by
  obtain ⟨b, b', h⟩ := message.parsed
  simp only [CertificateRef.parse, bind_eq_ok] at h
  obtain ⟨_, _, -, context, _, -, _, _, -, raw, _, hraw, entries, _, hentries, h⟩ := h
  obtain ⟨w, rfl, -, -⟩ := slice_eq_ok.mp (mapError_eq_ok.mp hraw)
  obtain ⟨-, d, hparse⟩ := within_eq_ok.mp hentries
  obtain ⟨hcert, -⟩ := EStateM.Result.ok.inj h
  have hvector : outcome (CertificateEntryRef.parseVector 16 (new w)) = .ok entries := by
    rw [hparse]
    rfl
  rw [copy, CertificateRef.tryFrom, ← hcert]
  exact congrArg (Except.map _) hvector

namespace CertVerifier

open Pki

inductive Call
  | setHostname (hostname : Bytes)
  | verifyCertificate (transcript : Bytes) (message : CertificateMessage)
  | verifySignature (verify : CertificateVerifyRef)

variable {cs : TlsCipherSuite} (P : Primitives cs) (crates : Crates) (certSize : Nat)
  (clock : Nat → Nat → Option Nat)

def Call.run : Call → M Unit
  | setHostname hostname => setHostnameVerification hostname
  | verifyCertificate transcript message =>
      CertVerifier.verifyCertificate crates certSize clock transcript message.cert
  | verifySignature verify => CertVerifier.verifySignature P crates verify

/-- A call, its answer and the verifier it leaves, whether it failed or not. -/
def step (v : CertVerifier) (call : Call) : Except Stop Unit × CertVerifier :=
  (outcome (call.run P crates certSize clock v), after (call.run P crates certSize clock v))

abbrev CallEvent := Event CertVerifier Call (Except Stop Unit)

/-- Neither an accepted certificate nor a check of a signature. -/
def Idle (e : CallEvent) : Prop :=
  (∀ verify, e.call ≠ .verifySignature verify) ∧
    ∀ transcript message, e.call = .verifyCertificate transcript message → e.out ≠ .ok ()

/-- The call before all the idle ones at the end was an accepted certificate. -/
def LastAccepted (h : List CallEvent) (transcript : Bytes) (message : CertificateMessage) : Prop :=
  ∃ newer e older, h = newer ++ e :: older ∧ e.call = .verifyCertificate transcript message ∧
    e.out = .ok () ∧ ∀ e' ∈ newer, Idle e'

theorem LastAccepted.idle {h : List CallEvent} {transcript : Bytes} {message : CertificateMessage}
    {e : CallEvent} (hlast : LastAccepted h transcript message) (he : Idle e) :
    LastAccepted (e :: h) transcript message := by
  obtain ⟨newer, accepted, older, rfl, hcall, hout, hidle⟩ := hlast
  refine ⟨e :: newer, accepted, older, rfl, hcall, hout, ?_⟩
  intro e' he'
  rcases List.mem_cons.mp he' with rfl | he'
  · exact he
  · exact hidle e' he'

/-- The transcript and the certificate that are kept are those of one call. -/
def Paired (h : List CallEvent) (v : CertVerifier) : Prop :=
  ∀ transcript, v.certificateTranscript = some transcript →
    ∃ message, LastAccepted h transcript message ∧ v.certificate = some message.copy

section Steps

variable {P crates certSize clock} {v v' : CertVerifier} {h : List CallEvent}

/-- A certificate that is refused changes neither of the two. -/
theorem verifyCertificate_error {transcript : Bytes} {cert : CertificateRef} {e : Stop}
    (hrun : CertVerifier.verifyCertificate crates certSize clock transcript cert v = .error e v') :
    v'.certificateTranscript = v.certificateTranscript ∧ v'.certificate = v.certificate := by
  simp only [CertVerifier.verifyCertificate, get_bind_apply, set_bind_apply, bind_eq_error,
    fromResult_eq_error, fromResult_eq_ok] at hrun
  rcases hrun with ⟨-, rfl⟩ | ⟨names, _, ⟨-, rfl⟩, ⟨-, rfl⟩ | ⟨matched, _, ⟨-, rfl⟩, hrun⟩⟩
  · exact ⟨rfl, rfl⟩
  · exact ⟨rfl, rfl⟩
  · cases matched with
    | false =>
        cases hrun
        exact ⟨rfl, rfl⟩
    | true =>
        rcases bind_eq_error.mp hrun with hcopy | ⟨_, _, -, hset⟩
        · obtain ⟨-, rfl⟩ := fromResult_eq_error.mp hcopy
          exact ⟨rfl, rfl⟩
        · cases hset

/-- The check of a signature takes the transcript, whatever comes of it. -/
theorem verifySignature_takes (verify : CertificateVerifyRef) :
    (after (CertVerifier.verifySignature P crates verify v)).certificateTranscript = none := by
  rw [CertVerifier.verifySignature, get_bind_apply]
  cases htranscript : v.certificateTranscript with
  | none => exact htranscript
  | some transcript =>
      obtain ⟨certificate, hcertificate⟩ :=
        Option.isSome_iff_exists.mp (v.certificate_of_transcript (by rw [htranscript]; rfl))
      have hkeeps : Keeps Eq (do
          let certificate ← fromResult ((CertificateRef.tryFrom certificate).mapError .err)
          fromResult (Pki.verifySignature crates
            (List.replicate 64 0x20 ++ ctxStr ++ (P.hash transcript).val) certificate verify) : M Unit) :=
        (Keeps.fromResult _).bind fun _ => Keeps.fromResult _
      simp only [set_bind_apply, signedMessage_eq, fromResult_ok_bind, hcertificate]
      rw [← hkeeps v.dropTranscript]
      rfl

/-- What the key of the first entry has to answer for. -/
structure Bound (P : Primitives cs) (crates : Crates) (transcript : Bytes) (cert : CertificateRef)
    (verify : CertificateVerifyRef) where
  data : Bytes
  certificate : DecodedCertificate
  key : Bytes
  first : cert.entries[0]? = some (.x509 data)
  decoded : crates.der.certificate data = some certificate
  publicKey : certificate.tbsCertificate.publicKey = some key
  verified : checkScheme crates (List.replicate 64 0x20 ++
    (ascii "TLS 1.3, server CertificateVerify".toList ++ [0]) ++ (P.hash transcript).val) key verify =
      .ok true

theorem leafKey_eq_ok {cert : CertificateRef} {key : Bytes} :
    leafKey crates cert = .ok key ↔ ∃ data certificate, cert.entries[0]? = some (.x509 data) ∧
      crates.der.certificate data = some certificate ∧
      certificate.tbsCertificate.publicKey = some key := by
  unfold leafKey
  rw [← List.head?_eq_getElem?]
  cases cert.entries.head? with
  | none => simp
  | some entry =>
      cases entry with
      | rawPublicKey data => simp
      | x509 data => simp [except_bind_eq_ok, decoded_eq_ok, publicKey_eq_ok]

theorem verifySignature_eq_ok {message : Bytes} {cert : CertificateRef}
    {verify : CertificateVerifyRef} :
    Pki.verifySignature crates message cert verify = .ok () ↔
      ∃ key, leafKey crates cert = .ok key ∧ checkScheme crates message key verify = .ok true := by
  simp only [Pki.verifySignature, except_bind_eq_ok]
  constructor
  · rintro ⟨key, hkey, verified, hverified, h⟩
    cases verified with
    | false => cases h
    | true => exact ⟨key, hkey, hverified⟩
  · rintro ⟨key, hkey, hverified⟩
    exact ⟨key, hkey, true, hverified, rfl⟩

/-- A signature that holds has been checked under the certificate and the transcript that were
kept. -/
theorem verifySignature_ok {verify : CertificateVerifyRef} {transcript : Bytes}
    {message : CertificateMessage} (htranscript : v.certificateTranscript = some transcript)
    (hcertificate : v.certificate = some message.copy)
    (hrun : CertVerifier.verifySignature P crates verify v = .ok () v') :
    Nonempty (Bound P crates transcript message.cert verify) := by
  simp only [CertVerifier.verifySignature, get_bind_apply, htranscript, set_bind_apply,
    signedMessage_eq, fromResult_ok_bind, hcertificate, message.tryFrom_copy, Except.mapError,
    fromResult_eq_ok] at hrun
  obtain ⟨key, hkey, hverified⟩ := verifySignature_eq_ok.mp hrun.1
  obtain ⟨data, certificate, hfirst, hdecoded, hpublic⟩ := leafKey_eq_ok.mp hkey
  exact ⟨⟨data, certificate, key, hfirst, hdecoded, hpublic, hverified⟩⟩

end Steps

variable {P crates certSize clock}

theorem paired_step {h : List CallEvent} {v : CertVerifier} (call : Call) (hpaired : Paired h v) :
    Paired (⟨v, call, (step P crates certSize clock v call).1⟩ :: h)
      (step P crates certSize clock v call).2 := by
  -- a call that is idle and changes neither of the two
  have hidle : ∀ {v' : CertVerifier}, v'.certificateTranscript = v.certificateTranscript →
      v'.certificate = v.certificate → Idle ⟨v, call, (step P crates certSize clock v call).1⟩ →
      Paired (⟨v, call, (step P crates certSize clock v call).1⟩ :: h) v' := by
    intro v' htranscript hcertificate he transcript ht
    obtain ⟨message, hlast, hkept⟩ := hpaired transcript (htranscript.symm.trans ht)
    exact ⟨message, hlast.idle he, hcertificate.trans hkept⟩
  cases call with
  | setHostname hostname =>
      have hstep : (step P crates certSize clock v (.setHostname hostname)).2 =
          after (setHostnameVerification hostname v) := rfl
      rw [hstep]
      refine hidle ?_ ?_ ⟨fun _ hcall => (by cases hcall), fun _ _ hcall => (by cases hcall)⟩
      · unfold setHostnameVerification
        split <;> rfl
      · unfold setHostnameVerification
        split <;> rfl
  | verifyCertificate transcript message =>
      cases hrun : CertVerifier.verifyCertificate crates certSize clock transcript message.cert v with
      | ok u v' =>
          have hout : (step P crates certSize clock v (.verifyCertificate transcript message)).1 =
              .ok () := congrArg outcome hrun
          have hafter : (step P crates certSize clock v (.verifyCertificate transcript message)).2 = v' :=
            congrArg after hrun
          obtain ⟨-, rfl⟩ := verifyCertificate_eq_ok.mp hrun
          rw [hafter]
          rintro _ ⟨⟩
          exact ⟨message, ⟨[], _, h, rfl, rfl, hout, fun _ hmem => absurd hmem List.not_mem_nil⟩, rfl⟩
      | error e v' =>
          have hout : (step P crates certSize clock v (.verifyCertificate transcript message)).1 =
              .error e := congrArg outcome hrun
          have hafter : (step P crates certSize clock v (.verifyCertificate transcript message)).2 = v' :=
            congrArg after hrun
          rw [hafter]
          obtain ⟨htranscript, hcertificate⟩ := verifyCertificate_error hrun
          refine hidle htranscript hcertificate ⟨fun _ hcall => (by cases hcall), fun _ _ _ hok => ?_⟩
          cases hout.symm.trans hok
  | verifySignature verify =>
      intro transcript ht
      cases (verifySignature_takes verify).symm.trans ht

theorem paired_of_reaches {ca : CertificateEntryRef} {h : List CallEvent} {v : CertVerifier}
    (hr : Reaches (step P crates certSize clock) (new ca) h v) : Paired h v :=
  hr.invariant Paired (fun _ htranscript => by cases htranscript)
    fun _ _ call _ hpaired => paired_step call hpaired

/-- The accepted certificate was accepted after every earlier check of a signature. -/
theorem LastAccepted.after_signature {h newer older : List CallEvent} {transcript : Bytes}
    {message : CertificateMessage} {e : CallEvent} {verify : CertificateVerifyRef}
    (hlast : LastAccepted h transcript message) (hh : h = newer ++ e :: older)
    (he : e.call = .verifySignature verify) : LastAccepted newer transcript message := by
  obtain ⟨newer', accepted, older', rfl, hcall, hout, hidle⟩ := hlast
  have hne : accepted ≠ e := by
    rintro rfl
    cases hcall.symm.trans he
  rcases List.append_eq_append_iff.mp hh with ⟨between, rfl, hrest⟩ | ⟨between, rfl, hrest⟩
  · cases between with
    | nil => exact absurd (List.cons.inj hrest).1 hne
    | cons first between =>
        obtain ⟨rfl, -⟩ := List.cons.inj hrest
        exact ⟨newer', accepted, between, rfl, hcall, hout, hidle⟩
  · cases between with
    | nil => exact absurd (List.cons.inj hrest).1.symm hne
    | cons first between =>
        obtain ⟨rfl, -⟩ := List.cons.inj hrest
        exact absurd he ((hidle e (by simp)).1 verify)

/-- A signature that holds was checked under the first entry of the last accepted certificate and
over the transcript of the call that accepted it, and no earlier check was about that call. -/
theorem verifySignature_bound {ca : CertificateEntryRef} {newer older : List CallEvent}
    {e : CallEvent} {v : CertVerifier} {verify : CertificateVerifyRef}
    (hr : Reaches (step P crates certSize clock) (new ca) (newer ++ e :: older) v)
    (hcall : e.call = .verifySignature verify) (hout : e.out = .ok ()) :
    ∃ transcript message, LastAccepted older transcript message ∧
      CertificateRef.tryFrom message.copy = .ok message.cert ∧
      Nonempty (Bound P crates transcript message.cert verify) ∧
      ∀ between earlier older' verify', older = between ++ earlier :: older' →
        earlier.call = .verifySignature verify' → LastAccepted between transcript message := by
  obtain ⟨hbefore, hanswer, -⟩ := hr.split
  rw [hout, hcall] at hanswer
  have hrun := outcome_eq_ok hanswer.symm
  cases htranscript : e.pre.certificateTranscript with
  | none =>
      -- the unwrap of the transcript panics
      simp [Call.run, CertVerifier.verifySignature, get_bind_apply, htranscript] at hrun
  | some transcript =>
      obtain ⟨message, hlast, hcertificate⟩ := paired_of_reaches hbefore transcript htranscript
      refine ⟨transcript, message, hlast, message.tryFrom_copy,
        verifySignature_ok htranscript hcertificate hrun, ?_⟩
      intro between earlier older' verify' hsplit hearlier
      exact hlast.after_signature hsplit hearlier

end CertVerifier

namespace Pki.Sample

open CertVerifier

/-- The certificate for `a.example`, as a message. -/
def message : CertificateMessage where
  cert := ⟨[0, 0, 13, 0x30, 0x30, 2, 1] ++ ascii "a.example".toList ++ [0, 0], [],
    [certificate 2 1 "a.example"]⟩
  parsed := ⟨.new ([0, 0, 0, 18, 0, 0, 13, 0x30, 0x30, 2, 1] ++ ascii "a.example".toList ++ [0, 0]),
    _, outcome_eq_ok (by decide +kernel)⟩

/-- A signature by the key of that certificate. -/
def verify : CertificateVerifyRef := ⟨.ecdsaSecp256r1Sha256, [2]⟩

abbrev sampleStep : CertVerifier → Call → Except Stop Unit × CertVerifier :=
  step (Primitives.checksumming .aes128GcmSha256) crates 64 fun _ _ => some 50

/-- A host is set and its certificate accepted. -/
def calls : List Call := [.setHostname (ascii "a.example".toList), .verifyCertificate [7] message]

def run : List CallEvent × CertVerifier := runAll sampleStep ([], .new (certificate 1 1 "ca")) calls

/-- Then the signature is checked. -/
def signatureEvent : CallEvent :=
  ⟨run.2, .verifySignature verify, (sampleStep run.2 (.verifySignature verify)).1⟩

theorem signature_bound :
    ∃ transcript message, LastAccepted run.1 transcript message ∧
      Nonempty (Bound (Primitives.checksumming .aes128GcmSha256) crates transcript message.cert
        verify) := by
  have hr : Reaches sampleStep (.new (certificate 1 1 "ca")) ([] ++ signatureEvent :: run.1)
      (sampleStep run.2 (.verifySignature verify)).2 :=
    .call (.verifySignature verify) (runAll_reaches .nil calls)
  obtain ⟨transcript, message, hlast, -, hbound, -⟩ :=
    verifySignature_bound hr rfl (by decide +kernel)
  exact ⟨transcript, message, hlast, hbound⟩

end Pki.Sample

end GatoPskTls
