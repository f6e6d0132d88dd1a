import GatoPskTls.HostName

/-!
# Which subject alternative names are seen

The names of a certificate are collected in a list with room for three. Here is what its subject
alternative name extensions say, read to the end without a list to fill, and when the collected
names are all of them.
-/
namespace GatoPskTls

open Stateful

/-- All elements of a byte string, each with its first byte and its value. -/
inductive Der.Elements (der : Der) : Bytes → List (UInt8 × Bytes) → Prop
  | nil : Der.Elements der [] []
  | cons {tagByte tag : UInt8} {bytes value rest : Bytes} {entries : List (UInt8 × Bytes)} :
      der.element (tagByte :: bytes) = some (tag, value, rest) → Der.Elements der rest entries →
      Der.Elements der (tagByte :: bytes) ((tagByte, value) :: entries)

/-- The value of a subject alternative name extension is a sequence of general names. -/
structure GeneralNames (der : Der) (extnValue : AnyRef) (entries : List (UInt8 × Bytes)) : Prop where
  octetString : extnValue.tag = TAG_OCTET_STRING
  readable : der.sliceReader extnValue.value = true
  sequence : ∃ content rest, der.element extnValue.value = some (TAG_SEQUENCE, content, rest) ∧
    der.sliceReader content = true ∧ der.Elements content entries

/-- The general names of all extensions that carry some. -/
inductive SanDecodes (der : Der) : List ExtensionIdAndValue → List (UInt8 × Bytes) → Prop
  | nil : SanDecodes der [] []
  | other {elems : ExtensionIdAndValue} {extensions : List ExtensionIdAndValue}
      {entries : List (UInt8 × Bytes)} : elems.extnId ≠ SUBJECT_ALT_NAME_OID →
      SanDecodes der extensions entries → SanDecodes der (elems :: extensions) entries
  | san {elems : ExtensionIdAndValue} {extensions : List ExtensionIdAndValue}
      {names entries : List (UInt8 × Bytes)} : elems.extnId = SUBJECT_ALT_NAME_OID →
      GeneralNames der elems.extnValue names → SanDecodes der extensions entries →
      SanDecodes der (elems :: extensions) (names ++ entries)

/-- The dNSName entries, in their order. -/
def dnsNames (entries : List (UInt8 × Bytes)) : List Bytes :=
  entries.filterMap fun entry => if entry.1 = DNS_NAME_TAG then some entry.2 else none

/-- A name the code takes: UTF-8 of at most 64 bytes. -/
def Der.IsName (der : Der) (name : Bytes) : Prop :=
  der.isUtf8 name = true ∧ name.length ≤ HOSTNAME_MAXLEN

/-- Filling a list in two goes is filling it in one. -/
theorem take_take_append {α : Type} (k : Nat) (u v : List α) :
    (u.take k ++ v).take k = (u ++ v).take k := by
  have hleft : k - min k u.length = k - u.length := by omega
  rw [List.take_append, List.take_append, List.take_take, Nat.min_self, List.length_take, hleft]

section Collect

variable {der : Der}

theorem Der.element_shorter {bytes value rest : Bytes} {tag : UInt8}
    (h : der.element bytes = some (tag, value, rest)) : rest.length < bytes.length := by
  simp only [Der.element, Option.bind_eq_bind, Option.bind_eq_some_iff] at h
  obtain ⟨header, hheader, h⟩ := h
  split at h
  · cases h
    have hshorter := der.header_shorter bytes header hheader
    rw [List.length_drop]
    omega
  · cases h

/-- The inner loop keeps the first three names. -/
theorem generalNames_eq {content : Bytes} {entries : List (UInt8 × Bytes)}
    (h : der.Elements content entries) (hnames : ∀ name ∈ dnsNames entries, der.IsName name) {n : Nat}
    (hn : content.length ≤ n) {acc : List Bytes} (hacc : acc.length ≤ MAX_SAN_DNS_NAMES) :
    generalNames der n content acc = some ((acc ++ dnsNames entries).take MAX_SAN_DNS_NAMES) := by
  induction h generalizing n acc with
  | nil =>
      have htake : (acc ++ dnsNames []).take MAX_SAN_DNS_NAMES = acc := by
        rw [dnsNames, List.filterMap_nil, List.append_nil, List.take_of_length_le hacc]
      rw [htake]
      cases n <;> rfl
  | @cons tagByte tag bytes value rest entries helement helements ih =>
      have hshorter := Der.element_shorter helement
      obtain ⟨m, rfl⟩ : ∃ m, n = m + 1 := ⟨n - 1, by rw [List.length_cons] at hn; omega⟩
      rw [generalNames, helement]
      by_cases hdns : tagByte = DNS_NAME_TAG
      · have hcons : dnsNames ((tagByte, value) :: entries) = value :: dnsNames entries := by
          simp [dnsNames, hdns]
        rw [hcons] at hnames ⊢
        obtain ⟨⟨hutf8, hmax⟩, hrest⟩ := List.forall_mem_cons.mp hnames
        simp only [Option.bind_eq_bind, Option.bind_some, if_pos hdns]
        rw [if_pos ⟨hutf8, hmax⟩]
        by_cases hroom : acc.length < MAX_SAN_DNS_NAMES
        · simp only [if_pos hroom]
          have hlen : (acc ++ [value]).length ≤ MAX_SAN_DNS_NAMES := by
            rw [List.length_append, List.length_singleton]
            exact hroom
          rw [List.append_cons acc value (dnsNames entries)]
          split
          next hfull =>
            rw [List.take_append_of_le_length (Nat.le_of_eq hfull.symm), List.take_of_length_le hlen]
          next => exact ih hrest (by omega) hlen
        · -- the push finds no room, and the loop ends
          have hfull : acc.length = MAX_SAN_DNS_NAMES := by omega
          rw [if_neg hroom, if_pos hfull, List.take_append_of_le_length (Nat.le_of_eq hfull.symm),
            List.take_of_length_le hacc]
      · have hskip : dnsNames ((tagByte, value) :: entries) = dnsNames entries := by
          simp [dnsNames, hdns]
        rw [hskip] at hnames ⊢
        simp only [Option.bind_eq_bind, Option.bind_some, if_neg hdns]
        exact ih hnames (by omega) hacc

theorem subjectAltNames_eq {extnValue : AnyRef} {entries : List (UInt8 × Bytes)}
    (h : GeneralNames der extnValue entries) (hnames : ∀ name ∈ dnsNames entries, der.IsName name)
    {acc : List Bytes} (hacc : acc.length ≤ MAX_SAN_DNS_NAMES) :
    subjectAltNames der extnValue acc =
      some ((acc ++ dnsNames entries).take MAX_SAN_DNS_NAMES) := by
  obtain ⟨hoctet, hreadable, content, rest, hsequence, hcontent, helements⟩ := h
  have hguard : ∀ {p : Prop} [Decidable p], p → (guard p : Option Unit) = some () := fun hp => if_pos hp
  simp only [subjectAltNames, hguard hoctet, hguard hreadable, hsequence, hguard hcontent,
    Option.bind_eq_bind, Option.bind_some]
  exact generalNames_eq helements hnames (Nat.le_refl _) hacc

theorem sanDnsNamesFrom_eq {extensions : List ExtensionIdAndValue} {entries : List (UInt8 × Bytes)}
    (h : SanDecodes der extensions entries) (hnames : ∀ name ∈ dnsNames entries, der.IsName name)
    {acc : List Bytes} (hacc : acc.length ≤ MAX_SAN_DNS_NAMES) :
    sanDnsNamesFrom der extensions acc =
      some ((acc ++ dnsNames entries).take MAX_SAN_DNS_NAMES) := by
  induction h generalizing acc with
  | nil =>
      rw [sanDnsNamesFrom, dnsNames, List.filterMap_nil, List.append_nil, List.take_of_length_le hacc]
  | other hother _ ih =>
      rw [sanDnsNamesFrom, if_neg hother]
      exact ih hnames hacc
  | @san elems extensions names entries hsan hgeneral _ ih =>
      have hsplit : dnsNames (names ++ entries) = dnsNames names ++ dnsNames entries :=
        List.filterMap_append
      rw [hsplit] at hnames ⊢
      obtain ⟨hfirst, hrest⟩ := List.forall_mem_append.mp hnames
      have hlen : ((acc ++ dnsNames names).take MAX_SAN_DNS_NAMES).length ≤ MAX_SAN_DNS_NAMES :=
        List.length_take_le _ _
      rw [sanDnsNamesFrom, if_pos hsan, subjectAltNames_eq hgeneral hfirst hacc]
      simp only [Option.bind_eq_bind, Option.bind_some]
      rw [ih hrest hlen, take_take_append, List.append_assoc]

end Collect

/-- The general names of a certificate; without extensions there are none. -/
def TbsCertificate.Names (der : Der) (tbs : TbsCertificate) (entries : List (UInt8 × Bytes)) : Prop :=
  SanDecodes der (tbs.extensions.getD []) entries

/-- Every dNSName is returned, in order, and the host check takes every host one of them is for. -/
structure NoNameMissed (der : Der) (tbs : TbsCertificate) (names : List Bytes) : Prop where
  returned : extractSanDnsNames der tbs = some names
  hosts : ∀ (commonName : Option Bytes) (host : Bytes),
    (∃ name ∈ names, Pki.tlsHostnameMatchImpl name host = .ok true) →
    (extractSanDnsNames der tbs).map
      (fun sans => Pki.tlsHostnameMatch ⟨commonName, sans⟩ (some host)) = some (.ok true)

theorem extractSanDnsNames_eq {der : Der} {tbs : TbsCertificate} {entries : List (UInt8 × Bytes)}
    (h : tbs.Names der entries) (hnames : ∀ name ∈ dnsNames entries, der.IsName name) :
    extractSanDnsNames der tbs = some ((dnsNames entries).take MAX_SAN_DNS_NAMES) := by
  have hfrom := sanDnsNamesFrom_eq h hnames (show [].length ≤ MAX_SAN_DNS_NAMES from Nat.zero_le _)
  rw [List.nil_append] at hfrom
  rw [extractSanDnsNames, ← hfrom]
  cases tbs.extensions with
  | none => rfl
  | some extensions => rfl

/-- No name is missed exactly when there are at most three. -/
theorem noNameMissed_iff {der : Der} {tbs : TbsCertificate} {entries : List (UInt8 × Bytes)}
    (h : tbs.Names der entries) (hnames : ∀ name ∈ dnsNames entries, der.IsName name) :
    NoNameMissed der tbs (dnsNames entries) ↔
      (dnsNames entries).length ≤ MAX_SAN_DNS_NAMES := by
  have hextract := extractSanDnsNames_eq h hnames
  constructor
  · rintro ⟨hreturned, -⟩
    rw [hextract, Option.some.injEq, List.take_eq_self_iff] at hreturned
    exact hreturned
  · intro hlen
    rw [List.take_of_length_le hlen] at hextract
    refine ⟨hextract, ?_⟩
    rintro commonName host ⟨name, hmem, hmatch⟩
    have haccepts := Pki.tlsHostnameMatchImpl_eq_true.mp hmatch
    rw [hextract, Option.map_some]
    exact congrArg some (Pki.tlsHostnameMatch_some_eq_true.mpr (.inl ⟨name, hmem, haccepts⟩))

namespace SanNames.Sample

/-- A header of one byte for the tag and one for the length. -/
def der : Der where
  certificate := fun _ => none
  sliceReader := fun _ => true
  header
    | tag :: length :: rest => some ⟨tag, length.toNat, rest⟩
    | _ => none
  isUtf8 := fun _ => true
  header_shorter := by
    intro bytes h hheader
    match bytes, hheader with
    | _ :: _ :: rest, hheader =>
        cases hheader
        simp

/-- One dNSName after another. -/
def content (names : List Bytes) : Bytes :=
  names.flatMap fun name => DNS_NAME_TAG :: name.length.toUInt8 :: name

/-- A certificate for the given names. -/
def issuedFor (names : List Bytes) : TbsCertificate where
  validity := ⟨.utcTime 0, .utcTime 0⟩
  subject := []
  publicKey := none
  extensions := some [⟨SUBJECT_ALT_NAME_OID, none, ⟨TAG_OCTET_STRING,
    TAG_SEQUENCE :: (content names).length.toUInt8 :: content names⟩⟩]

def entries (names : List Bytes) : List (UInt8 × Bytes) :=
  names.map fun name => (DNS_NAME_TAG, name)

theorem element_eq (tag : UInt8) {value : Bytes} (h : value.length < 256) (rest : Bytes) :
    der.element (tag :: value.length.toUInt8 :: value ++ rest) = some (tag, value, rest) := by
  have hlength : value.length.toUInt8.toNat = value.length := Nat.mod_eq_of_lt h
  simp [Der.element, der, hlength]

theorem elements_content {names : List Bytes} (h : ∀ name ∈ names, der.IsName name) :
    der.Elements (content names) (entries names) := by
  induction names with
  | nil => exact .nil
  | cons name names ih =>
      obtain ⟨⟨-, hmax⟩, hrest⟩ := List.forall_mem_cons.mp h
      have hshort : name.length < 256 := Nat.lt_of_le_of_lt hmax (by decide)
      exact .cons (element_eq DNS_NAME_TAG hshort (content names)) (ih hrest)

theorem names_issuedFor {names : List Bytes} (h : ∀ name ∈ names, der.IsName name)
    (hlen : (content names).length < 256) : (issuedFor names).Names der (entries names) := by
  have hsequence := element_eq TAG_SEQUENCE hlen []
  rw [List.append_nil] at hsequence
  have hnames : GeneralNames der
      ⟨TAG_OCTET_STRING, TAG_SEQUENCE :: (content names).length.toUInt8 :: content names⟩
      (entries names) :=
    ⟨rfl, rfl, content names, [], hsequence, rfl, elements_content h⟩
  have hsan : (issuedFor names).Names der (entries names ++ []) := .san rfl hnames .nil
  rwa [List.append_nil] at hsan

def four : List Bytes :=
  ["a.example", "b.example", "c.example", "d.example"].map fun name => ascii name.toList

/-- A certificate for four hosts does not serve the fourth. -/
theorem fourth_name_missed :
    (issuedFor four).Names der (entries four) ∧ dnsNames (entries four) = four ∧
      (∀ name ∈ four, der.IsName name) ∧
      extractSanDnsNames der (issuedFor four) = some (four.take 3) ∧
      (extractSanDnsNames der (issuedFor four)).map (fun sans =>
        Pki.tlsHostnameMatch ⟨none, sans⟩ (some (ascii "d.example".toList))) = some (.ok false) := by
  have hnames : ∀ name ∈ four, der.IsName name := by
    intro name hmem
    refine ⟨rfl, ?_⟩
    revert name
    decide
  exact ⟨names_issuedFor hnames (by decide), by decide, hnames, by decide, by decide +kernel⟩

theorem noNameMissed_three : NoNameMissed der (issuedFor (four.take 3)) (four.take 3) := by
  have hnames : ∀ name ∈ four.take 3, der.IsName name := by
    intro name hmem
    refine ⟨rfl, ?_⟩
    revert name
    decide
  exact (noNameMissed_iff (names_issuedFor hnames (by decide)) hnames).mpr (by decide)

end SanNames.Sample

end GatoPskTls
