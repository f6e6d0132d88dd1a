import GatoPskTls.ClientHello

/-!
# Server: reading a ClientHello

What the server decides about a ClientHello before it touches the key schedule:
the validators, the key-exchange mode, the pinned fields of a second ClientHello,
and which identity and binder are ours.
-/
namespace GatoPskTls.Server

open GatoPskTls ParseBuffer

def TLS_AES_128_GCM_SHA256 : Nat := 0x1301
def CLIENT_HELLO_MAX_EXTENSIONS : Nat := 16
def RECORD_HEADER_LEN : Nat := 5
def HANDSHAKE_HEADER_LEN : Nat := 4
def X25519_LEN : Nat := 32

/-- Scalar multiplication on Curve25519, from another crate. -/
structure X25519 where
  mult : GenericArray X25519_LEN → GenericArray X25519_LEN → GenericArray X25519_LEN
  basepoint : GenericArray X25519_LEN

structure DheKeyShare where
  secret : GenericArray X25519_LEN
  publicKey : GenericArray X25519_LEN
  deriving DecidableEq

def DheKeyShare.fromSecret (X : X25519) (secret : GenericArray X25519_LEN) : DheKeyShare :=
  ⟨secret, X.mult secret X.basepoint⟩

structure TlsServerConfig where
  pskIdentity : Bytes
  pskSecret : Bytes
  serverRandom : GenericArray 32
  dheKeypair : Option DheKeyShare
  deriving DecidableEq

inductive KexMode
  | pskKe
  | pskDheKe (clientX25519Pub : Bytes)
  deriving DecidableEq, Repr

inductive KexDecision
  | use (mode : KexMode)
  | retry (retryGroup : NamedGroup)
  deriving DecidableEq, Repr

structure HrrState where
  sent : Bool
  ch1Random : GenericArray 32
  ch1SessionIdLen : UInt8
  ch1SessionId : GenericArray 32
  deriving DecidableEq

def HrrState.default : HrrState := ⟨false, .zeros 32, 0, .zeros 32⟩

variable (hello : ClientHelloRef) (config : TlsServerConfig)

/-- `find_map` over the extensions. -/
def findExtension {α : Type} (pick : ClientHelloExtension → Option α) : Option α :=
  hello.extensions.findSome? pick

def supportedVersions : Option SupportedVersionsClientHello :=
  findExtension hello fun
    | .supportedVersions v => some v
    | _ => none

def pskKeyExchangeModes : Option PskKeyExchangeModes :=
  findExtension hello fun
    | .pskKeyExchangeModes m => some m
    | _ => none

def supportedGroups : Option SupportedGroups :=
  findExtension hello fun
    | .supportedGroups g => some g
    | _ => none

def keyShare : Option KeyShareClientHello :=
  findExtension hello fun
    | .keyShare k => some k
    | _ => none

def preSharedKey : Option PreSharedKeyClientHello :=
  findExtension hello fun
    | .preSharedKey p => some p
    | _ => none

def validateSupportedVersions : Except TlsError Unit :=
  match supportedVersions hello with
  | none => .error (fatal .missingExtension)
  | some ext => if ext.versions.any (· == TLS13) then .ok () else .error (fatal .protocolVersion)

/-- `chunks_exact(2)`: a last odd byte is left out. -/
def chunksOfTwo : Bytes → List Bytes
  | a :: b :: rest => [a, b] :: chunksOfTwo rest
  | _ => []

def validateCipherSuites : Except TlsError Unit :=
  if (chunksOfTwo hello.cipherSuites).any (· == BigEndian.bigEndian 2 TLS_AES_128_GCM_SHA256) then
    .ok ()
  else .error (fatal .handshakeFailure)

def clientSupportsGroup (group : NamedGroup) : Bool :=
  match supportedGroups hello with
  | some g => g.supportedGroups.any (· == group)
  | none => false

/-- The first X25519 entry decides; entries of other groups are passed over. -/
def firstX25519Share : List KeyShareEntry → Except TlsError (Option Bytes)
  | [] => .ok none
  | entry :: entries =>
      if entry.group = .x25519 then
        if entry.opaqueBytes.length ≠ X25519_LEN then .error (fatal .illegalParameter)
        else .ok (some entry.opaqueBytes)
      else firstX25519Share entries

def findClientX25519Share : Except TlsError (Option Bytes) :=
  match keyShare hello with
  | none => .ok none
  | some ks => firstX25519Share ks.clientShares

def offersMode (mode : PskKeyExchangeMode) (modes : PskKeyExchangeModes) : Bool :=
  modes.modes.any (· == mode)

def decideKex (hrrAlreadySent : Bool) : Except TlsError KexDecision :=
  match pskKeyExchangeModes hello with
  | none => .error (fatal .missingExtension)
  | some modes =>
      let offersPskKe := offersMode .pskKe modes
      let offersPskDheKe := offersMode .pskDheKe modes
      if offersPskDheKe && config.dheKeypair.isSome then
        match findClientX25519Share hello with
        | .error e => .error e
        | .ok (some share) => .ok (.use (.pskDheKe share))
        | .ok none =>
            -- no usable share: psk_ke if it was offered, else ask for one, once
            if offersPskKe then .ok (.use .pskKe)
            else if !hrrAlreadySent && clientSupportsGroup hello .x25519 then .ok (.retry .x25519)
            else .error (fatal .handshakeFailure)
      else if offersPskKe then .ok (.use .pskKe)
      else .error (fatal .handshakeFailure)

def validateCh2Consistency (snapshot : HrrState) : Except TlsError Unit :=
  if hello.random ≠ snapshot.ch1Random then .error (fatal .illegalParameter)
  else if hello.legacySessionId ≠ snapshot.ch1SessionId.val.take snapshot.ch1SessionIdLen.toNat then
    .error (fatal .illegalParameter)
  else .ok ()

/-- The index of our identity, and the binder at that index. -/
def locateOurIdentity : Except Stop (Nat × Bytes) :=
  match preSharedKey hello with
  | none => .error (.err (fatal .missingExtension))
  | some pskExt =>
      match pskExt.identities.findIdx? (· == config.pskIdentity) with
      | none => .error (.err (fatal .unknownPskIdentity))
      | some idx =>
          match pskExt.binders[idx]? with
          | none => .error .panic
          | some binder => .ok (idx, binder)

/-- The message parsed, and refused when bytes are left behind it. -/
def parseClientHello (msg : Bytes) : Except TlsError ClientHelloRef :=
  match ClientHelloRef.parse CLIENT_HELLO_MAX_EXTENSIONS (new msg) with
  | .error e _ => .error e
  | .ok hello rest => if !rest.isEmpty then .error .invalidHandshake else .ok hello

/-- What the first half of `process_client_hello_inner` learns about a ClientHello. -/
structure Offer where
  hello : ClientHelloRef
  decision : KexDecision
  selectedIdx : Nat
  receivedBinder : Bytes
  deriving DecidableEq

def checkCh2 (hrr : HrrState) : Except TlsError Unit :=
  if hrr.sent then validateCh2Consistency hello hrr else .ok ()

def examine (msg : Bytes) (config : TlsServerConfig) (hrr : HrrState) : Except Stop Offer := do
  let hello ← (parseClientHello msg).mapError .err
  (validateSupportedVersions hello).mapError .err
  (validateCipherSuites hello).mapError .err
  (checkCh2 hello hrr).mapError .err
  let decision ← (decideKex hello config hrr.sent).mapError .err
  let (selectedIdx, receivedBinder) ← locateOurIdentity hello config
  return { hello, decision, selectedIdx, receivedBinder }

end GatoPskTls.Server
