import GatoPskTls.PkiSafety

/-!
# What a chain that was accepted looks like

The verifier walks the chain from the CA to the first entry and keeps the names of the last
certificate it saw. Here is when it accepts, entry by entry: what each certificate owes to its
issuer, and what is left to the host name.
-/
namespace GatoPskTls

open Stateful

/-- The signature verifies under the key. -/
structure SignatureCrate.Holds (crate : SignatureCrate) (key message signature : Bytes) : Prop where
  key_ok : crate.key key = true
  signature_ok : crate.signature signature = true
  verified : crate.verify key message signature = true

namespace Pki

variable {crates : Crates}

/-- The crate that checks signatures of this algorithm. -/
def signatureCrate (crates : Crates) (algorithm : AlgorithmIdentifier) : Option SignatureCrate :=
  if algorithm = .ECDSA_SHA256 then some crates.p256
  else if algorithm = .ECDSA_SHA384 then crates.p384
  else if algorithm = .ED25519 then crates.ed25519
  else if algorithm = .RSA_PKCS1_SHA256 then crates.rsa.map (·.pkcs1v15Sha256)
  else if algorithm = .RSA_PKCS1_SHA384 then crates.rsa.map (·.pkcs1v15Sha384)
  else if algorithm = .RSA_PKCS1_SHA512 then crates.rsa.map (·.pkcs1v15Sha512)
  else none

/-- An Ed25519 key is 32 bytes long. -/
def Signs (crates : Crates) (algorithm : AlgorithmIdentifier) (key message signature : Bytes) : Prop :=
  (algorithm = .ED25519 → key.length = 32) ∧
    ∃ crate, signatureCrate crates algorithm = some crate ∧ crate.Holds key message signature

theorem check_eq_true {crate : SignatureCrate} {e e' : Stop} {message key : Bytes}
    {signature : BitStringRef} :
    crate.check e e' message key signature = .ok true ↔
      ∃ s, signature = some s ∧ crate.Holds key message s := by
  unfold SignatureCrate.check
  cases hkey : crate.key key with
  | false =>
      refine iff_of_false (by simp) ?_
      rintro ⟨s, -, h⟩
      cases hkey.symm.trans h.key_ok
  | true =>
      cases signature with
      | none => simp
      | some s =>
          cases hs : crate.signature s with
          | false =>
              refine iff_of_false (by simp [hs]) ?_
              rintro ⟨_, ⟨⟩, h⟩
              cases hs.symm.trans h.signature_ok
          | true =>
              simp only [if_true, hs, Except.ok.injEq, Option.some.injEq, exists_eq_left']
              exact ⟨fun h => ⟨hkey, hs, h⟩, fun h => h.verified⟩

theorem checkArray_eq_true {crate : SignatureCrate} {e e' : Stop} {message key : Bytes}
    {signature : BitStringRef} :
    crate.checkArray e e' message key signature = .ok true ↔
      key.length = 32 ∧ ∃ s, signature = some s ∧ crate.Holds key message s := by
  unfold SignatureCrate.checkArray
  split
  next h => simp [h, check_eq_true]
  next h => simp [h]

/-- The algorithm picks the crate. -/
theorem checkAlgorithm_eq (examined : Examined) : checkAlgorithm crates examined =
    match signatureCrate crates examined.certificate.signatureAlgorithm with
    | none => invalidScheme
    | some crate =>
        if examined.certificate.signatureAlgorithm = .ED25519 then
          crate.checkArray (.err .decodeError) (.err (.parseError .invalidData)) examined.data
            examined.caPublicKey examined.certificate.signature
        else crate.check (.err .decodeError) (.err (.parseError .invalidData)) examined.data
          examined.caPublicKey examined.certificate.signature := by
  unfold checkAlgorithm signatureCrate
  generalize examined.certificate.signatureAlgorithm = algorithm
  by_cases hecdsa : algorithm = .ECDSA_SHA256
  · subst hecdsa
    rfl
  by_cases hsha384 : algorithm = .ECDSA_SHA384
  · subst hsha384
    cases crates.p384 with
    | none => rfl
    | some p384 => rfl
  by_cases hed25519 : algorithm = .ED25519
  · subst hed25519
    cases crates.ed25519 with
    | none => rfl
    | some ed25519 => rfl
  simp only [if_neg hecdsa, if_neg hsha384, if_neg hed25519]
  cases crates.rsa with
  | none => simp
  | some rsa =>
      by_cases hrsa256 : algorithm = .RSA_PKCS1_SHA256
      · simp only [if_pos hrsa256, Option.map_some]
      by_cases hrsa384 : algorithm = .RSA_PKCS1_SHA384
      · simp only [if_neg hrsa256, if_pos hrsa384, Option.map_some]
      by_cases hrsa512 : algorithm = .RSA_PKCS1_SHA512
      · simp only [if_neg hrsa256, if_neg hrsa384, if_pos hrsa512, Option.map_some]
      · simp only [if_neg hrsa256, if_neg hrsa384, if_neg hrsa512]

theorem checkAlgorithm_eq_true {examined : Examined} :
    checkAlgorithm crates examined = .ok true ↔
      ∃ s, examined.certificate.signature = some s ∧
        Signs crates examined.certificate.signatureAlgorithm examined.caPublicKey examined.data s := by
  rw [checkAlgorithm_eq]
  unfold Signs
  cases signatureCrate crates examined.certificate.signatureAlgorithm with
  | none => simp [invalidScheme]
  | some crate =>
      simp only [Option.some.injEq, exists_eq_left']
      split
      next hed25519 =>
        rw [checkArray_eq_true]
        constructor
        · rintro ⟨hlen, s, hs, h⟩
          exact ⟨s, hs, fun _ => hlen, h⟩
        · rintro ⟨s, hs, hlen, h⟩
          exact ⟨hlen hed25519, s, hs, h⟩
      next hother =>
        rw [check_eq_true]
        constructor
        · rintro ⟨s, hs, h⟩
          exact ⟨s, hs, fun hed25519 => absurd hed25519 hother, h⟩
        · rintro ⟨s, hs, -, h⟩
          exact ⟨s, hs, h⟩

/-- The names in a certificate. -/
def namesOf (crates : Crates) : CertificateEntryRef → Option CertificateNames
  | .rawPublicKey _ => none
  | .x509 data => do
      let certificate ← crates.der.certificate data
      let commonName ← extractCommonName crates.der certificate.tbsCertificate
      let sanDnsNames ← extractSanDnsNames crates.der certificate.tbsCertificate
      return ⟨commonName, sanDnsNames⟩

/-- A certificate that its issuer has signed and that is in time. -/
structure Issued (crates : Crates) (issuer entry : CertificateEntryRef) (now : Option Nat) where
  issuerData : Bytes
  data : Bytes
  issuerCertificate : DecodedCertificate
  certificate : DecodedCertificate
  key : Bytes
  names : CertificateNames
  signed : Bytes
  signature : Bytes
  issuer_x509 : issuer = .x509 issuerData
  entry_x509 : entry = .x509 data
  issuer_decoded : crates.der.certificate issuerData = some issuerCertificate
  entry_decoded : crates.der.certificate data = some certificate
  issuer_key : issuerCertificate.tbsCertificate.publicKey = some key
  commonName : extractCommonName crates.der certificate.tbsCertificate = some names.commonName
  sanDnsNames : extractSanDnsNames crates.der certificate.tbsCertificate = some names.sanDnsNames
  timely : ∀ time, now = some time →
    getCertTime certificate.tbsCertificate.validity.notBefore ≤ time ∧
      time ≤ getCertTime certificate.tbsCertificate.validity.notAfter
  signed_eq : getCertificateTlvBytes crates.der data = some signed
  signature_eq : certificate.signature = some signature
  signs : Signs crates certificate.signatureAlgorithm key signed signature

theorem Issued.namesOf_eq {issuer entry : CertificateEntryRef} {now : Option Nat}
    (c : Issued crates issuer entry now) : namesOf crates entry = some c.names := by
  refine (congrArg (namesOf crates) c.entry_x509).trans ?_
  simp [namesOf, c.entry_decoded, c.commonName, c.sanDnsNames]

theorem inTime_iff {validity : Validity} {now : Option Nat} :
    inTime validity now = true ↔ ∀ time, now = some time →
      getCertTime validity.notBefore ≤ time ∧ time ≤ getCertTime validity.notAfter := by
  cases now with
  | none => simp [inTime]
  | some time => simp [inTime]

theorem decoded_eq_ok {data : Bytes} {certificate : DecodedCertificate} :
    decoded crates data = .ok certificate ↔ crates.der.certificate data = some certificate := by
  unfold decoded
  cases crates.der.certificate data with
  | none => simp
  | some c => simp

theorem publicKey_eq_ok {certificate : DecodedCertificate} {key : Bytes} :
    publicKey certificate = .ok key ↔ certificate.tbsCertificate.publicKey = some key := by
  unfold publicKey
  cases certificate.tbsCertificate.publicKey with
  | none => simp
  | some k => simp

theorem orDecodeError_eq_ok {α : Type} {x : Option α} {a : α} :
    orDecodeError x = .ok a ↔ x = some a := by
  cases x with
  | none => simp [orDecodeError]
  | some b => simp [orDecodeError]

theorem examine_eq_ok {ca : DecodedCertificate} {data : Bytes} {now : Option Nat}
    {examined : Examined} :
    examine crates ca data now = .ok examined ↔
      crates.der.certificate data = some examined.certificate ∧
      ca.tbsCertificate.publicKey = some examined.caPublicKey ∧
      extractCommonName crates.der examined.certificate.tbsCertificate =
        some examined.names.commonName ∧
      extractSanDnsNames crates.der examined.certificate.tbsCertificate =
        some examined.names.sanDnsNames ∧
      inTime examined.certificate.tbsCertificate.validity now = true ∧
      getCertificateTlvBytes crates.der data = some examined.data := by
  simp only [examine, except_bind_eq_ok, decoded_eq_ok, publicKey_eq_ok, orDecodeError_eq_ok]
  constructor
  · rintro ⟨parsed, hparsed, key, hkey, cn, hcn, sans, hsans, h⟩
    split at h
    next htime =>
      obtain ⟨signed, hsigned, h⟩ := except_bind_eq_ok.mp h
      cases h
      exact ⟨hparsed, hkey, hcn, hsans, htime, orDecodeError_eq_ok.mp hsigned⟩
    · cases h
  · rintro ⟨hparsed, hkey, hcn, hsans, htime, hsigned⟩
    refine ⟨_, hparsed, _, hkey, _, hcn, _, hsans, ?_⟩
    rw [if_pos htime, orDecodeError_eq_ok.mpr hsigned]
    rfl

theorem verifyCertificate_eq_ok {issuer entry : CertificateEntryRef} {now : Option Nat}
    {names : CertificateNames} :
    verifyCertificate crates issuer entry now = .ok names ↔
      ∃ c : Issued crates issuer entry now, c.names = names := by
  constructor
  · intro h
    cases issuer with
    | rawPublicKey data => cases h
    | x509 issuerData =>
        obtain ⟨ca, hca, h⟩ := except_bind_eq_ok.mp h
        cases entry with
        | rawPublicKey data => cases h
        | x509 data =>
            obtain ⟨examined, hexamined, h⟩ := except_bind_eq_ok.mp h
            obtain ⟨verified, hverified, h⟩ := except_bind_eq_ok.mp h
            cases verified with
            | false => cases h
            | true =>
                cases h
                obtain ⟨hparsed, hkey, hcn, hsans, htime, hsigned⟩ := examine_eq_ok.mp hexamined
                obtain ⟨signature, hsignature, hsigns⟩ := checkAlgorithm_eq_true.mp hverified
                exact ⟨⟨issuerData, data, ca, examined.certificate, examined.caPublicKey,
                  examined.names, examined.data, signature, rfl, rfl, decoded_eq_ok.mp hca, hparsed,
                  hkey, hcn, hsans, inTime_iff.mp htime, hsigned, hsignature, hsigns⟩, rfl⟩
  · rintro ⟨⟨issuerData, data, ca, certificate, key, names, signed, signature, rfl, rfl, hca, hparsed,
      hkey, hcn, hsans, htime, hsigned, hsignature, hsigns⟩, rfl⟩
    have hexamined : examine crates ca data now = .ok ⟨certificate, key, names, signed⟩ :=
      examine_eq_ok.mpr ⟨hparsed, hkey, hcn, hsans, inTime_iff.mpr htime, hsigned⟩
    have hverified : checkAlgorithm crates ⟨certificate, key, names, signed⟩ = .ok true :=
      checkAlgorithm_eq_true.mpr ⟨signature, hsignature, hsigns⟩
    exact except_bind_eq_ok.mpr ⟨ca, decoded_eq_ok.mpr hca, except_bind_eq_ok.mpr
      ⟨_, hexamined, except_bind_eq_ok.mpr ⟨true, hverified, rfl⟩⟩⟩

section Chain

variable {ca cur : CertificateEntryRef} {entries : List CertificateEntryRef}
  {now : Nat → Option Nat} {n : Nat} {names names' : CertificateNames}

/-- The first `n` entries have each been issued by the entry behind them, the last by the CA. -/
def IssuedBelow (crates : Crates) (ca : CertificateEntryRef) (entries : List CertificateEntryRef)
    (now : Nat → Option Nat) (n : Nat) : Prop :=
  ∀ i entry, i < n → entries[i]? = some entry →
    Nonempty (Issued crates (issuer ca entries i) entry (now i))

theorem issuedBelow_succ (hcur : entries[n]? = some cur) :
    IssuedBelow crates ca entries now (n + 1) ↔
      Nonempty (Issued crates (issuer ca entries n) cur (now n)) ∧
        IssuedBelow crates ca entries now n := by
  constructor
  · intro h
    exact ⟨h n cur (by omega) hcur, fun i entry hi => h i entry (by omega)⟩
  · rintro ⟨hn, h⟩ i entry hi hentry
    rcases Nat.lt_succ_iff_lt_or_eq.mp hi with hlt | rfl
    · exact h i entry hlt hentry
    · cases hentry.symm.trans hcur
      exact hn

/-- The names that are left when the first `n` entries have been walked. -/
def NamesLeft (crates : Crates) (entries : List CertificateEntryRef) (n : Nat)
    (names names' : CertificateNames) : Prop :=
  if n = 0 then names' = names
  else ∃ entry, entries[0]? = some entry ∧ namesOf crates entry = some names'

theorem namesLeft_succ (hcur : entries[n]? = some cur)
    (c : Issued crates (issuer ca entries n) cur (now n)) :
    NamesLeft crates entries n c.names names' ↔ NamesLeft crates entries (n + 1) names names' := by
  unfold NamesLeft
  rw [if_neg (Nat.succ_ne_zero n)]
  cases n with
  | zero =>
      rw [if_pos rfl]
      constructor
      · rintro rfl
        exact ⟨cur, hcur, c.namesOf_eq⟩
      · rintro ⟨entry, hentry, hnames⟩
        cases hcur.symm.trans hentry
        exact Option.some.inj (hnames.symm.trans c.namesOf_eq)
  | succ n => rw [if_neg (Nat.succ_ne_zero n)]

/-- The walk over the first `n` entries, from the last of them to the first. -/
theorem verifyEach_eq_ok (hn : n ≤ entries.length) :
    verifyEach crates now n ⟨entries[n]?.getD ca, entries, (n : Int) - 1⟩ names = .ok names' ↔
      IssuedBelow crates ca entries now n ∧ NamesLeft crates entries n names names' := by
  induction n generalizing names with
  | zero =>
      simp only [verifyEach, NamesLeft, if_true, Except.ok.injEq]
      exact ⟨fun h => ⟨fun i entry hi => absurd hi (by omega), h.symm⟩, fun h => h.2.symm⟩
  | succ n ih =>
      have hcur : entries[n]? = some entries[n] := List.getElem?_eq_getElem hn
      have hidx : ((n + 1 : Nat) : Int) - 1 = n := by omega
      have hissuer : entries[n + 1]?.getD ca = issuer ca entries n := rfl
      simp only [verifyEach, hidx, next_at _ hcur, ok_bind, except_bind_eq_ok, hissuer]
      rw [hcur, Option.getD_some] at ih
      simp only [verifyCertificate_eq_ok, ih (by omega), issuedBelow_succ hcur]
      constructor
      · rintro ⟨_, ⟨c, rfl⟩, hissued, hnames⟩
        exact ⟨⟨⟨c⟩, hissued⟩, (namesLeft_succ hcur c).mp hnames⟩
      · rintro ⟨⟨⟨c⟩, hissued⟩, hnames⟩
        exact ⟨_, ⟨c, rfl⟩, hissued, (namesLeft_succ hcur c).mpr hnames⟩

theorem chain_eq_ok {cert : CertificateRef} :
    verifyEach crates now cert.entries.length (.new ca cert) names = .ok names' ↔
      IssuedBelow crates ca cert.entries now cert.entries.length ∧
        NamesLeft crates cert.entries cert.entries.length names names' := by
  have h := @verifyEach_eq_ok crates ca cert.entries now _ names names' le_rfl
  rwa [List.getElem?_eq_none le_rfl, Option.getD_none] at h

end Chain

end Pki

namespace CertVerifier

open Pki

variable {crates : Crates} {certSize : Nat} {clock : Nat → Nat → Option Nat} {v v' : CertVerifier}
  {transcript : Bytes} {cert : CertificateRef}

/-- Everything that is checked of a certificate message. -/
structure Passes (crates : Crates) (certSize : Nat) (now : Nat → Option Nat) (ca : CertificateEntryRef)
    (host : Option Bytes) (cert : CertificateRef) : Prop where
  issued : IssuedBelow crates ca cert.entries now cert.entries.length
  matched : ∃ names, NamesLeft crates cert.entries cert.entries.length ⟨none, []⟩ names ∧
    tlsHostnameMatch names host = .ok true
  context_fits : cert.requestContext.length ≤ 256
  entries_fit : cert.rawEntries.length ≤ certSize

/-- What an accepted message leaves behind. -/
def accepted (transcript : Bytes) (cert : CertificateRef) (v : CertVerifier) : CertVerifier :=
  setCertificate transcript ⟨cert.requestContext, cert.rawEntries⟩ { v with calls := v.calls + 1 }

theorem tryFrom_eq_ok {certificate : Certificate} :
    Certificate.tryFrom certSize cert = .ok certificate ↔
      (cert.requestContext.length ≤ 256 ∧ cert.rawEntries.length ≤ certSize) ∧
        certificate = ⟨cert.requestContext, cert.rawEntries⟩ := by
  unfold Certificate.tryFrom
  split
  next h => simp [h, eq_comm]
  next h => simp [h]

theorem verifyCertificate_eq_ok :
    verifyCertificate crates certSize clock transcript cert v = .ok () v' ↔
      Passes crates certSize (clock v.calls) v.ca v.host cert ∧ v' = accepted transcript cert v := by
  simp only [verifyCertificate, get_bind_apply, set_bind_apply, bind_eq_ok, fromResult_eq_ok]
  constructor
  · rintro ⟨names, _, ⟨hchain, rfl⟩, matched, _, ⟨hmatch, rfl⟩, h⟩
    obtain ⟨hissued, hnames⟩ := chain_eq_ok.mp hchain
    cases matched with
    | false => cases h
    | true =>
        obtain ⟨certificate, _, hresult, hset⟩ := bind_eq_ok.mp h
        obtain ⟨hcopy, rfl⟩ := fromResult_eq_ok.mp hresult
        obtain ⟨⟨hcontext, hentries⟩, rfl⟩ := tryFrom_eq_ok.mp (mapError_eq_ok_iff.mp hcopy)
        cases hset
        exact ⟨⟨hissued, ⟨names, hnames, hmatch⟩, hcontext, hentries⟩, rfl⟩
  · rintro ⟨⟨hissued, ⟨names, hnames, hmatch⟩, hcontext, hentries⟩, rfl⟩
    refine ⟨names, _, ⟨chain_eq_ok.mpr ⟨hissued, hnames⟩, rfl⟩, true, _, ⟨hmatch, rfl⟩, ?_⟩
    have hcertificate := tryFrom_eq_ok.mpr ⟨⟨hcontext, hentries⟩, rfl⟩
    exact bind_eq_ok.mpr ⟨_, _, fromResult_eq_ok.mpr ⟨mapError_eq_ok_iff.mpr hcertificate, rfl⟩, rfl⟩

/-- A chain of certificates from the CA to the first entry, whose names are the host's. -/
structure ChainSound (crates : Crates) (now : Nat → Option Nat) (ca : CertificateEntryRef)
    (host : Option Bytes) (entries : List CertificateEntryRef) : Prop where
  nonempty : entries ≠ []
  issued : IssuedBelow crates ca entries now entries.length
  matched : ∀ name, host = some name → ∃ entry names, entries[0]? = some entry ∧
    namesOf crates entry = some names ∧ tlsHostnameMatch names (some name) = .ok true

/-- Without a certificate there is no name for a host to match. -/
theorem tlsHostnameMatch_noNames (host : Option Bytes) :
    tlsHostnameMatch ⟨none, []⟩ host = .ok true ↔ host = none := by
  cases host with
  | none => exact iff_of_true rfl rfl
  | some name => simp [tlsHostnameMatch_some_eq_true]

theorem Passes.chainSound {now : Nat → Option Nat} {ca : CertificateEntryRef} {host : Option Bytes}
    (h : Passes crates certSize now ca host cert) (hne : cert.entries ≠ []) :
    ChainSound crates now ca host cert.entries := by
  refine ⟨hne, h.issued, ?_⟩
  rintro name rfl
  obtain ⟨names, hnames, hmatch⟩ := h.matched
  rw [NamesLeft, if_neg (List.length_pos_iff.mpr hne).ne'] at hnames
  obtain ⟨entry, hentry, hof⟩ := hnames
  exact ⟨entry, names, hentry, hof, hmatch⟩

/-- An accepted chain is sound, except that without a host name an empty one is accepted. -/
theorem chainSound_iff (crates : Crates) (certSize : Nat) (clock : Nat → Nat → Option Nat)
    (transcript : Bytes) (cert : CertificateRef) (v : CertVerifier) :
    (∀ v', verifyCertificate crates certSize clock transcript cert v = .ok () v' →
      ChainSound crates (clock v.calls) v.ca v.host cert.entries) ↔
    ¬(cert.entries = [] ∧ v.host = none ∧ cert.requestContext.length ≤ 256 ∧
      cert.rawEntries.length ≤ certSize) := by
  constructor
  · rintro h ⟨hnil, hhost, hcontext, hentries⟩
    have hpasses : Passes crates certSize (clock v.calls) v.ca v.host cert := by
      refine ⟨?_, ⟨⟨none, []⟩, ?_, (tlsHostnameMatch_noNames _).mpr hhost⟩, hcontext, hentries⟩
      · intro i entry hi
        rw [hnil] at hi
        exact absurd hi (Nat.not_lt_zero i)
      · rw [hnil, NamesLeft, List.length_nil, if_pos rfl]
    exact (h _ (verifyCertificate_eq_ok.mpr ⟨hpasses, rfl⟩)).nonempty hnil
  · intro hnot v' h
    obtain ⟨hpasses, -⟩ := verifyCertificate_eq_ok.mp h
    refine hpasses.chainSound fun hnil => hnot ?_
    obtain ⟨names, hnames, hmatch⟩ := hpasses.matched
    rw [hnil, NamesLeft, List.length_nil, if_pos rfl] at hnames
    subst hnames
    exact ⟨hnil, (tlsHostnameMatch_noNames _).mp hmatch, hpasses.context_fits, hpasses.entries_fit⟩

def BASIC_CONSTRAINTS_OID : ObjectIdentifier := [2, 5, 29, 19]
def TAG_BOOLEAN : UInt8 := 0x01

/-- A certificate with basic constraints that say it may issue others. -/
def IsCa (crates : Crates) (entry : CertificateEntryRef) : Prop :=
  ∃ data certificate extensions ext content rest rest', entry = .x509 data ∧
    crates.der.certificate data = some certificate ∧
    certificate.tbsCertificate.extensions = some extensions ∧ ext ∈ extensions ∧
    ext.extnId = BASIC_CONSTRAINTS_OID ∧ ext.extnValue.tag = TAG_OCTET_STRING ∧
    crates.der.element ext.extnValue.value = some (TAG_SEQUENCE, content, rest) ∧
    crates.der.element content = some (TAG_BOOLEAN, [0xFF], rest')

/-- Every entry but the first is a CA. -/
def IssuersAreCas (crates : Crates) (entries : List CertificateEntryRef) : Prop :=
  ∀ i entry, 0 < i → entries[i]? = some entry → IsCa crates entry

/-- Whether an issuer is a CA plays no part in what is checked. -/
theorem issuersAreCas_iff (crates : Crates) (certSize : Nat) (clock : Nat → Nat → Option Nat)
    (transcript : Bytes) (cert : CertificateRef) (v : CertVerifier) :
    (∀ v', verifyCertificate crates certSize clock transcript cert v = .ok () v' →
      IssuersAreCas crates cert.entries) ↔
    ¬Passes crates certSize (clock v.calls) v.ca v.host cert ∨ IssuersAreCas crates cert.entries := by
  rw [← imp_iff_not_or]
  constructor
  · intro h hpasses
    exact h _ (verifyCertificate_eq_ok.mpr ⟨hpasses, rfl⟩)
  · intro h v' hrun
    exact h (verifyCertificate_eq_ok.mp hrun).1

end CertVerifier

namespace Pki.Sample

/-- A certificate is its key, the key of its signer and its common name, in time up to 100. -/
def der : Der where
  certificate
    | 0x30 :: 0x30 :: key :: signer :: name => some ⟨⟨⟨.utcTime 0, .utcTime 100⟩,
        [[⟨COMMON_NAME_OID, ⟨0x0C, name⟩⟩]], some [key], none⟩, .ECDSA_SHA256, some [signer]⟩
    | _ => none
  sliceReader := fun _ => true
  header
    | [] => none
    | tag :: rest => some ⟨tag, 0, rest⟩
  isUtf8 := fun _ => true
  header_shorter := by
    intro bytes h hh
    cases bytes with
    | nil => cases hh
    | cons b rest =>
        cases hh
        simp

/-- The signature under a key is the key. -/
def crates : Crates where
  der := der
  p256 := ⟨fun key => key.length = 1, fun signature => signature.length = 1,
    fun key _ signature => key = signature⟩
  p384 := none
  ed25519 := none
  rsa := none

def certificate (key signer : UInt8) (name : String) : CertificateEntryRef :=
  .x509 ([0x30, 0x30, key, signer] ++ ascii name.toList)

def verifier (host : Option Bytes) : CertVerifier :=
  { CertVerifier.new (certificate 1 1 "ca") with host }

/-- How this message is answered at time 50. -/
def answer (host : Option Bytes) (entries : List CertificateEntryRef) : Except Stop Unit :=
  outcome (CertVerifier.verifyCertificate crates 64 (fun _ _ => some 50) [] ⟨[], [], entries⟩
    (verifier host))

/-- The CA has made out a certificate for `a.example`, whose holder signs one for `b.example`. -/
def chain : List CertificateEntryRef := [certificate 3 2 "b.example", certificate 2 1 "a.example"]

open CertVerifier

/-- A message without a certificate is accepted when no host is asked for. -/
theorem emptyChain_accepted :
    answer none [] = .ok () ∧
      ¬ChainSound crates (fun _ => some 50) (verifier none).ca none [] :=
  ⟨by decide, fun h => h.nonempty rfl⟩

/-- The holder of a certificate for one host gets through with one for another. -/
theorem endEntity_issues :
    answer (some (ascii "b.example".toList)) chain = .ok () ∧
      ¬IssuersAreCas crates chain := by
  refine ⟨by decide, fun h => ?_⟩
  obtain ⟨data, cert, extensions, _, _, _, _, hdata, hcert, hextensions, -⟩ :=
    h 1 (certificate 2 1 "a.example") Nat.one_pos rfl
  cases hdata
  cases hcert
  cases hextensions

end Pki.Sample

end GatoPskTls
