import GatoPskTls.HostName
import GatoPskTls.Panics

/-!
# Where the certificate verifier panics

The verifier unwraps four values: the transcript a CertificateVerify is checked over, the
certificate kept with it, an Ed25519 key, and the RSA key of one scheme. The second is always
there.
-/
namespace GatoPskTls

open Stateful

namespace Pki

variable {crates : Crates}

theorem check_panicsIff (crate : SignatureCrate) {e e' : TlsError} (message key : Bytes)
    (signature : BitStringRef) :
    PanicsIff False (crate.check (.err e) (.err e') message key signature) := by
  unfold SignatureCrate.check
  split
  · cases signature with
    | none => exact .err _
    | some signature =>
        dsimp only
        split
        · exact .ok _
        · exact .err _
  · exact .err _

theorem check_unwrap_panicsIff (crate : SignatureCrate) {e : TlsError} (message key : Bytes)
    (signature : BitStringRef) :
    PanicsIff (crate.key key = false) (crate.check .panic (.err e) message key signature) := by
  cases hkey : crate.key key with
  | false =>
      simp only [SignatureCrate.check, hkey, Bool.false_eq_true, if_false]
      exact PanicsIff.panic.congr (by simp)
  | true =>
      have h := @check_panicsIff crate e e message key signature
      simp only [SignatureCrate.check, hkey, if_true] at h ⊢
      exact h.congr (by simp)

theorem checkArray_panicsIff (crate : SignatureCrate) {e e' : TlsError} (message key : Bytes)
    (signature : BitStringRef) :
    PanicsIff (key.length ≠ 32) (crate.checkArray (.err e) (.err e') message key signature) := by
  unfold SignatureCrate.checkArray
  split
  next h => exact (check_panicsIff crate message key signature).congr (by simp [h])
  next h => exact PanicsIff.panic.congr (by simp [h])

theorem invalidScheme_panicsIff : PanicsIff False invalidScheme := .err _

/-- A key that does not fit the scheme of the CertificateVerify. -/
def UnfitKey (crates : Crates) (key : Bytes) : SignatureScheme → Prop
  | .ed25519 => crates.ed25519.isSome ∧ key.length ≠ 32
  | .rsaPssRsaeSha256 => ∃ rsa, crates.rsa = some rsa ∧ rsa.pssSha256.key key = false
  | _ => False

theorem checkScheme_panicsIff (message key : Bytes) (verify : CertificateVerifyRef) :
    PanicsIff (UnfitKey crates key verify.signatureScheme) (checkScheme crates message key verify) := by
  unfold checkScheme
  cases verify.signatureScheme with
  | ecdsaSecp256r1Sha256 => exact check_panicsIff _ _ _ _
  | ecdsaSecp384r1Sha384 =>
      cases crates.p384 with
      | none => exact invalidScheme_panicsIff
      | some p384 => exact check_panicsIff _ _ _ _
  | ed25519 =>
      simp only [UnfitKey]
      cases crates.ed25519 with
      | none => exact invalidScheme_panicsIff.congr (by simp)
      | some ed25519 => exact (checkArray_panicsIff _ _ _ _).congr (by simp)
  | rsaPssRsaeSha256 =>
      simp only [UnfitKey]
      cases crates.rsa with
      | none => exact invalidScheme_panicsIff.congr (by simp)
      | some rsa => exact (check_unwrap_panicsIff _ _ _ _).congr (by simp)
  | rsaPssRsaeSha384 =>
      cases crates.rsa with
      | none => exact invalidScheme_panicsIff
      | some rsa => exact check_panicsIff _ _ _ _
  | rsaPssRsaeSha512 =>
      cases crates.rsa with
      | none => exact invalidScheme_panicsIff
      | some rsa => exact check_panicsIff _ _ _ _
  | _ => exact invalidScheme_panicsIff

theorem decoded_panicsIff (data : Bytes) : PanicsIff False (decoded crates data) := by
  unfold decoded
  split
  · exact .ok _
  · exact .err _

theorem publicKey_panicsIff (certificate : DecodedCertificate) :
    PanicsIff False (publicKey certificate) := by
  unfold publicKey
  split
  · exact .ok _
  · exact .err _

theorem leafKey_panicsIff (certificate : CertificateRef) :
    PanicsIff False (leafKey crates certificate) := by
  unfold leafKey
  split
  · exact (decoded_panicsIff _).bind_last fun _ _ => publicKey_panicsIff _
  · exact .err _

theorem verifySignature_panicsIff (message : Bytes) (certificate : CertificateRef)
    (verify : CertificateVerifyRef) :
    PanicsIff (∃ key, leafKey crates certificate = .ok key ∧
        UnfitKey crates key verify.signatureScheme)
      (verifySignature crates message certificate verify) := by
  refine (leafKey_panicsIff certificate).bind_of_returns fun key _ => ?_
  refine (checkScheme_panicsIff message key verify).bind_last fun verified _ => ?_
  split
  · exact .ok _
  · exact .err _

theorem orDecodeError_panicsIff {α : Type} (x : Option α) : PanicsIff False (orDecodeError x) := by
  cases x with
  | none => exact .err _
  | some a => exact .ok _

theorem examine_panicsIff (ca : DecodedCertificate) (certificate : Bytes) (now : Option Nat) :
    PanicsIff False (examine crates ca certificate now) := by
  refine (decoded_panicsIff certificate).bind_last fun parsed _ => (publicKey_panicsIff ca).bind_last
    fun key _ => (orDecodeError_panicsIff _).bind_last fun commonName _ =>
      (orDecodeError_panicsIff _).bind_last fun sanDnsNames _ => ?_
  split
  · exact (orDecodeError_panicsIff _).bind_last fun data _ => .ok _
  · exact .err _

/-- An Ed25519 signature under a key that is none. -/
def Examined.Unfit (crates : Crates) (examined : Examined) : Prop :=
  examined.certificate.signatureAlgorithm = .ED25519 ∧ crates.ed25519.isSome ∧
    examined.caPublicKey.length ≠ 32

theorem checkAlgorithm_panicsIff (examined : Examined) :
    PanicsIff (examined.Unfit crates) (checkAlgorithm crates examined) := by
  by_cases h : examined.certificate.signatureAlgorithm = .ED25519
  · have hsha256 : AlgorithmIdentifier.ED25519 ≠ .ECDSA_SHA256 := by decide
    have hsha384 : AlgorithmIdentifier.ED25519 ≠ .ECDSA_SHA384 := by decide
    simp only [checkAlgorithm, Examined.Unfit, h, if_neg hsha256, if_neg hsha384, if_true]
    cases crates.ed25519 with
    | none => exact invalidScheme_panicsIff.congr (by simp)
    | some ed25519 => exact (checkArray_panicsIff _ _ _ _).congr (by simp)
  · refine PanicsIff.congr ?_ (by simp [Examined.Unfit, h] : False ↔ _)
    simp only [checkAlgorithm, if_neg h]
    repeat' split
    all_goals first
      | exact check_panicsIff _ _ _ _
      | exact invalidScheme_panicsIff

/-- The issuer's key is no Ed25519 key though the certificate carries such a signature, and
nothing else is wrong up to there. -/
def UnfitIssuer (crates : Crates) (verifier certificate : CertificateEntryRef)
    (now : Option Nat) : Prop :=
  ∃ issuer data ca examined, verifier = .x509 issuer ∧ certificate = .x509 data ∧
    decoded crates issuer = .ok ca ∧ examine crates ca data now = .ok examined ∧
    examined.Unfit crates

theorem verifyCertificate_panicsIff (verifier certificate : CertificateEntryRef) (now : Option Nat) :
    PanicsIff (UnfitIssuer crates verifier certificate now)
      (verifyCertificate crates verifier certificate now) := by
  cases verifier with
  | rawPublicKey data => exact (PanicsIff.err _).congr (by simp [UnfitIssuer])
  | x509 issuer =>
      cases certificate with
      | rawPublicKey data =>
          exact ((decoded_panicsIff issuer).bind_last fun ca _ => .err _).congr (by simp [UnfitIssuer])
      | x509 data =>
          refine ((decoded_panicsIff issuer).bind_of_returns fun ca _ =>
            (examine_panicsIff ca data now).bind_of_returns fun examined _ =>
              (checkAlgorithm_panicsIff examined).bind_last
                fun verified _ => ?_).congr (by simp [UnfitIssuer])
          split
          · exact .ok _
          · exact .err _

/-- The certificate that signs entry `i`. -/
def issuer (ca : CertificateEntryRef) (entries : List CertificateEntryRef) (i : Nat) :
    CertificateEntryRef :=
  entries[i + 1]?.getD ca

/-- Entry `i` below `n` makes the verifier panic, and those it looks at before are in order. -/
def UnfitBelow (crates : Crates) (ca : CertificateEntryRef) (entries : List CertificateEntryRef)
    (now : Nat → Option Nat) (n : Nat) : Prop :=
  ∃ i entry, i < n ∧ entries[i]? = some entry ∧
    UnfitIssuer crates (issuer ca entries i) entry (now i) ∧
    ∀ j entry', i < j → j < n → entries[j]? = some entry' →
      ∃ names, verifyCertificate crates (issuer ca entries j) entry' (now j) = .ok names

section Chain

variable {ca cur : CertificateEntryRef} {entries : List CertificateEntryRef}
  {now : Nat → Option Nat} {n : Nat}

theorem unfitBelow_succ (hcur : entries[n]? = some cur) :
    UnfitBelow crates ca entries now (n + 1) ↔
      UnfitIssuer crates (issuer ca entries n) cur (now n) ∨
        ∃ names, verifyCertificate crates (issuer ca entries n) cur (now n) = .ok names ∧
          UnfitBelow crates ca entries now n := by
  constructor
  · rintro ⟨i, entry, hi, hentry, hunfit, hbefore⟩
    rcases Nat.lt_succ_iff_lt_or_eq.mp hi with hlt | rfl
    · obtain ⟨names, hnames⟩ := hbefore n cur hlt (by omega) hcur
      exact .inr ⟨names, hnames, i, entry, hlt, hentry, hunfit,
        fun j entry' hij hjn => hbefore j entry' hij (by omega)⟩
    · cases hentry.symm.trans hcur
      exact .inl hunfit
  · rintro (hunfit | ⟨names, hnames, i, entry, hi, hentry, hunfit, hbefore⟩)
    · exact ⟨n, cur, by omega, hcur, hunfit, fun j _ _ _ => by omega⟩
    · refine ⟨i, entry, by omega, hentry, hunfit, fun j entry' hij hjn hj => ?_⟩
      rcases Nat.lt_succ_iff_lt_or_eq.mp hjn with hlt | rfl
      · exact hbefore j entry' hij hlt hj
      · cases hj.symm.trans hcur
        exact ⟨names, hnames⟩

theorem next_at (prev : CertificateEntryRef) (hcur : entries[n]? = some cur) :
    CertificateChain.next ⟨prev, entries, n⟩ =
      .ok (some ((prev, cur), ⟨cur, entries, (n : Int) - 1⟩)) := by
  have hidx : ¬(n : Int) < 0 := by omega
  simp only [CertificateChain.next, if_neg hidx, Int.toNat_natCast, hcur]

/-- The entries from `n` on are in order; what happens below. -/
theorem verifyEach_panicsIff (hn : n ≤ entries.length) (names : CertificateNames) :
    PanicsIff (UnfitBelow crates ca entries now n)
      (verifyEach crates now n ⟨entries[n]?.getD ca, entries, (n : Int) - 1⟩ names) := by
  induction n generalizing names with
  | zero => exact (PanicsIff.ok _).congr (by simp [UnfitBelow])
  | succ n ih =>
      have hcur : entries[n]? = some entries[n] := List.getElem?_eq_getElem hn
      have hidx : ((n + 1 : Nat) : Int) - 1 = n := by omega
      simp only [verifyEach, hidx, next_at _ hcur, ok_bind]
      refine ((verifyCertificate_panicsIff _ _ (now n)).bind fun names _ => ?_).congr
        (unfitBelow_succ hcur).symm
      have h := ih (by omega) names
      rwa [hcur, Option.getD_some] at h

theorem chain_panicsIff (cert : CertificateRef) (names : CertificateNames) :
    PanicsIff (UnfitBelow crates ca cert.entries now cert.entries.length)
      (verifyEach crates now cert.entries.length (.new ca cert) names) := by
  have h := @verifyEach_panicsIff crates ca cert.entries now _ le_rfl names
  rwa [List.getElem?_eq_none le_rfl, Option.getD_none] at h

end Chain

theorem tlsHostnameMatch_panicsIff (names : CertificateNames) (host : Option Bytes) :
    PanicsIff False (tlsHostnameMatch names host) := by
  cases host with
  | none => exact .ok _
  | some host =>
      rw [tlsHostnameMatch_some]
      exact .ok _

end Pki

namespace CertVerifier

open Pki

variable {cs : TlsCipherSuite} {P : Primitives cs} {crates : Crates} {certSize : Nat}
  {clock : Nat → Nat → Option Nat} {v : CertVerifier}

/-- A chain in which the verifier comes to an issuer without an Ed25519 key. -/
def UnfitChain (crates : Crates) (clock : Nat → Nat → Option Nat) (v : CertVerifier)
    (cert : CertificateRef) : Prop :=
  UnfitBelow crates v.ca cert.entries (clock v.calls) cert.entries.length

theorem verifyCertificate_panicsIff (transcript : Bytes) (cert : CertificateRef) :
    PanicsIff (UnfitChain crates clock v cert)
      (outcome (verifyCertificate crates certSize clock transcript cert v)) := by
  simp only [verifyCertificate, get_bind_apply, set_bind_apply]
  refine (chain_panicsIff cert _).fromResult.bindM_last fun names t _ =>
    (tlsHostnameMatch_panicsIff names v.host).fromResult.bindM_last fun matched t' _ => ?_
  cases matched with
  | false => exact .err _
  | true => exact (PanicsIff.mapError _).fromResult.bindM_last fun certificate t'' _ => .ok _

/-- No certificate has been accepted since the last CertificateVerify, or the key of the one that
was does not fit the scheme. -/
def UnfitVerify (crates : Crates) (v : CertVerifier) (verify : CertificateVerifyRef) : Prop :=
  v.certificateTranscript = none ∨
    ∃ certificate cert key, v.certificate = some certificate ∧
      CertificateRef.tryFrom certificate = .ok cert ∧ leafKey crates cert = .ok key ∧
      UnfitKey crates key verify.signatureScheme

theorem signedMessage_eq (transcript : Bytes) : signedMessage P transcript =
    .ok (List.replicate 64 0x20 ++ ctxStr ++ (P.hash transcript).val) := by
  have hctx : ctxStr.length = 34 := by decide
  have hhash := (P.hash transcript).property
  have hlen : cs.hashLen ≤ 48 := by
    cases cs with
    | aes128GcmSha256 => decide
    | aes256GcmSha384 => decide
  refine if_pos ?_
  simp only [List.length_append, List.length_replicate, hctx, hhash]
  omega

theorem verifySignature_panicsIff (verify : CertificateVerifyRef) :
    PanicsIff (UnfitVerify crates v verify) (outcome (verifySignature P crates verify v)) := by
  simp only [verifySignature, get_bind_apply]
  cases htranscript : v.certificateTranscript with
  | none => exact PanicsIff.panic.congr (by simp [UnfitVerify, htranscript])
  | some transcript =>
      obtain ⟨certificate, hcertificate⟩ :=
        Option.isSome_iff_exists.mp (v.certificate_of_transcript (by rw [htranscript]; rfl))
      simp only [set_bind_apply, signedMessage_eq, fromResult_ok_bind, hcertificate]
      refine ((PanicsIff.mapError (CertificateRef.tryFrom certificate)).fromResult.bindM fun cert t _ =>
        (Pki.verifySignature_panicsIff _ cert verify).fromResult).congr ?_
      simp only [UnfitVerify, htranscript, hcertificate]
      cases hcert : CertificateRef.tryFrom certificate with
      | error e => simp [hcert]
      | ok cert => simp [hcert]

end CertVerifier

end GatoPskTls
