import GatoPskTls.Error

/-!
# Certificates

The parts of a DER certificate the verifier reads, and the names it takes from them. The `der`
crate stands behind `Der`; its errors carry nothing that any caller looks at.
-/
namespace GatoPskTls

abbrev ObjectIdentifier := List Nat

structure AnyRef where
  tag : UInt8
  value : Bytes
  deriving DecidableEq, Repr

/-- What `as_bytes` gives: nothing when the last octet has unused bits. -/
abbrev BitStringRef := Option Bytes

structure AlgorithmIdentifier where
  oid : ObjectIdentifier
  parameters : Option AnyRef
  deriving DecidableEq, Repr

namespace AlgorithmIdentifier

def null : AnyRef := ⟨0x05, []⟩

def ECDSA_SHA256 : AlgorithmIdentifier := ⟨[1, 2, 840, 10045, 4, 3, 2], none⟩
def ECDSA_SHA384 : AlgorithmIdentifier := ⟨[1, 2, 840, 10045, 4, 3, 3], none⟩
def ED25519 : AlgorithmIdentifier := ⟨[1, 3, 101, 112], none⟩
def RSA_PKCS1_SHA256 : AlgorithmIdentifier := ⟨[1, 2, 840, 113549, 1, 1, 11], some null⟩
def RSA_PKCS1_SHA384 : AlgorithmIdentifier := ⟨[1, 2, 840, 113549, 1, 1, 12], some null⟩
def RSA_PKCS1_SHA512 : AlgorithmIdentifier := ⟨[1, 2, 840, 113549, 1, 1, 13], some null⟩

end AlgorithmIdentifier

structure AttributeTypeAndValue where
  oid : ObjectIdentifier
  value : AnyRef
  deriving DecidableEq, Repr

structure ExtensionIdAndValue where
  extnId : ObjectIdentifier
  critical : Option Bool
  extnValue : AnyRef
  deriving DecidableEq, Repr

/-- A time with its seconds since the epoch. -/
inductive Time
  | utcTime (secs : Nat)
  | generalTime (secs : Nat)
  deriving DecidableEq, Repr

structure Validity where
  notBefore : Time
  notAfter : Time
  deriving DecidableEq, Repr

structure TbsCertificate where
  validity : Validity
  subject : List (List AttributeTypeAndValue)
  publicKey : BitStringRef
  extensions : Option (List ExtensionIdAndValue)
  deriving DecidableEq, Repr

structure DecodedCertificate where
  tbsCertificate : TbsCertificate
  signatureAlgorithm : AlgorithmIdentifier
  signature : BitStringRef
  deriving DecidableEq, Repr

/-- A header: the tag, the length of the value, and the bytes behind the header. -/
structure Header where
  tag : UInt8
  length : Nat
  rest : Bytes

/-- The functions of the `der` crate, and `core::str::from_utf8`. -/
structure Der where
  certificate : Bytes → Option DecodedCertificate
  sliceReader : Bytes → Bool
  header : Bytes → Option Header
  isUtf8 : Bytes → Bool
  header_shorter : ∀ bytes h, header bytes = some h → h.rest.length < bytes.length

namespace Der

/-- A header and the value it announces, with what stands behind the value. -/
def element (der : Der) (bytes : Bytes) : Option (UInt8 × Bytes × Bytes) := do
  let h ← der.header bytes
  if h.length ≤ h.rest.length then
    return (h.tag, h.rest.take h.length, h.rest.drop h.length)
  else none

end Der

def MAX_SAN_DNS_NAMES : Nat := 3
def HOSTNAME_MAXLEN : Nat := 64

def DNS_NAME_TAG : UInt8 := 0x82
def TAG_OCTET_STRING : UInt8 := 0x04
def TAG_SEQUENCE : UInt8 := 0x30
def COMMON_NAME_OID : ObjectIdentifier := [2, 5, 4, 3]
def SUBJECT_ALT_NAME_OID : ObjectIdentifier := [2, 5, 29, 17]

/-- The last common name counts, and one that is not UTF-8 takes back those before it. -/
def commonNameFrom (der : Der) (commonName : Option Bytes) :
    List (List AttributeTypeAndValue) → Option (Option Bytes)
  | [] => some commonName
  | [] :: _ => none
  | (attrs :: _) :: subject =>
      if attrs.oid = COMMON_NAME_OID then
        if attrs.value.value.length ≤ HOSTNAME_MAXLEN then
          commonNameFrom der
            (if der.isUtf8 attrs.value.value then some attrs.value.value else none) subject
        else none
      else commonNameFrom der commonName subject

def extractCommonName (der : Der) (tbs : TbsCertificate) : Option (Option Bytes) :=
  commonNameFrom der none tbs.subject

/-- The loop over the general names. The result of the push is ignored; a full list ends the
loop. -/
def generalNames (der : Der) : Nat → Bytes → List Bytes → Option (List Bytes)
  | 0, _, dnsNames => some dnsNames
  | _, [], dnsNames => some dnsNames
  | n+1, tagByte :: bytes, dnsNames => do
      let (_, value, rest) ← der.element (tagByte :: bytes)
      if tagByte = DNS_NAME_TAG then
        if der.isUtf8 value ∧ value.length ≤ HOSTNAME_MAXLEN then
          let dnsNames := if dnsNames.length < MAX_SAN_DNS_NAMES then dnsNames ++ [value] else dnsNames
          if dnsNames.length = MAX_SAN_DNS_NAMES then some dnsNames
          else generalNames der n rest dnsNames
        else none
      else generalNames der n rest dnsNames

/-- The general names of one extension. -/
def subjectAltNames (der : Der) (extnValue : AnyRef) (dnsNames : List Bytes) :
    Option (List Bytes) := do
  guard (extnValue.tag = TAG_OCTET_STRING)
  guard (der.sliceReader extnValue.value)
  let (tag, content, _) ← der.element extnValue.value
  guard (tag = TAG_SEQUENCE)
  guard (der.sliceReader content)
  generalNames der content.length content dnsNames

/-- The loop over the extensions goes on behind a full list. -/
def sanDnsNamesFrom (der : Der) : List ExtensionIdAndValue → List Bytes → Option (List Bytes)
  | [], dnsNames => some dnsNames
  | elems :: extensions, dnsNames =>
      if elems.extnId = SUBJECT_ALT_NAME_OID then do
        sanDnsNamesFrom der extensions (← subjectAltNames der elems.extnValue dnsNames)
      else sanDnsNamesFrom der extensions dnsNames

def extractSanDnsNames (der : Der) (tbs : TbsCertificate) : Option (List Bytes) :=
  match tbs.extensions with
  | none => some []
  | some extensions => sanDnsNamesFrom der extensions []

end GatoPskTls
