import GatoPskTls.Client.Establishing
import GatoPskTls.Client.Split

/-!
# The life of a connection

A connection from `new` on: `open`, which may be tried again after it has failed, the calls of the
open connection, and `close`. While `open` runs, nothing else can be called.
-/
namespace GatoPskTls.Client

open Stateful History

variable {cs : TlsCipherSuite} {π : Type} {C : P256}

/-- `open` under way. It has its own context and handshake, and leaves `opened`, `decrypted` and
`flushPolicy` of the connection alone until it is done. -/
structure Attempt (cs : TlsCipherSuite) (π : Type) (C : P256) where
  establishing : Establishing cs π C
  stage : Stage
  config : TlsConfig
  random : GenericArray 32
  secret : C.Secret
  opened : Bool
  decrypted : DecryptedBufferInfo
  flushPolicy : FlushPolicy

namespace Attempt

def connection (a : Attempt cs π C) : TlsConnection cs :=
  ⟨a.establishing.opening.channel, a.opened, a.decrypted, a.flushPolicy⟩

end Attempt

inductive Life (cs : TlsCipherSuite) (π : Type) (C : P256)
  | opening (a : Attempt cs π C)
  | connected (c : TlsConnection cs)
  | gone (c : TlsConnection cs)

/-- A turn is one of the loop in `open`. -/
inductive LifeCall (π : Type) (C : P256)
  | open (config : TlsConfig) (random : GenericArray 32) (secret : C.Secret) (provider : π)
  | turn
  | read (call : ReadCall)
  | write (call : WriteCall)
  | setFlushPolicy (policy : FlushPolicy)
  | close

inductive LifeAnswer
  | done
  | stage (stage : Stage)
  | served (served : Served)
  | written (count : Option Nat)
  deriving DecidableEq

abbrev LifeEvent (cs : TlsCipherSuite) (π : Type) (C : P256) :=
  Event (Life cs π C) (LifeCall π C) (Option (Except Stop LifeAnswer))

namespace Life

/-- `TlsConnection::new` over a transport. -/
def new (transport : Incoming) (plan : List IoOutcome) (recordReadBuf : Bytes)
    (recordWriteBuf : WriteBuffer) : Life cs π C :=
  connected ⟨⟨⟨.new recordReadBuf, transport⟩, ⟨plan, []⟩, recordWriteBuf, .new⟩, false, .default, .strict⟩

def connection : Life cs π C → TlsConnection cs
  | opening a => a.connection
  | connected c => c
  | gone c => c

/-- After an error the connection is still there, after a panic it is not. -/
def left (c : TlsConnection cs) : Stop → Life cs π C
  | .panic => gone c
  | _ => connected c

def answered {α : Type} (answer : α → LifeAnswer) :
    EStateM.Result Stop (TlsConnection cs) α → Option (Except Stop LifeAnswer) × Life cs π C
  | .ok a c => (some (.ok (answer a)), connected c)
  | .error e c => (some (.error e), left c e)

def attempt (c : TlsConnection cs) (config : TlsConfig) (random : GenericArray 32)
    (secret : C.Secret) (provider : π) : Attempt cs π C where
  establishing := ⟨⟨c.channel, ⟨none, none⟩, provider, []⟩, none⟩
  stage := .clientHello
  config := config
  random := random
  secret := secret
  opened := c.opened
  decrypted := c.decrypted
  flushPolicy := c.flushPolicy

/-- `if let (Ok(verifier), Some(server_name)) = ..`: the verifier is asked for in any case. -/
def hostname (pr : CryptoProvider π) (setHostnameVerification : Bytes → EStateM Stop π Unit)
    (serverName : Option Bytes) : EStateM Stop π Unit := fun provider =>
  match pr.verifier provider, serverName with
  | .ok _ provider, some name => setHostnameVerification name provider
  | .ok _ provider, none => .ok () provider
  | .error _ provider, _ => .ok () provider

/-- A turn of the loop; behind the last one the connection is open. -/
def turned (a : Attempt cs π C) :
    EStateM.Result Stop (Establishing cs π C) Stage → Option (Except Stop LifeAnswer) × Life cs π C
  | .ok stage establishing =>
      (some (.ok (.stage stage)),
        if stage = .later .applicationData then
          connected { Attempt.connection { a with establishing } with opened := true }
        else opening { a with establishing, stage })
  | .error e establishing => (some (.error e), left (Attempt.connection { a with establishing }) e)

/-- A call that cannot be made gets no answer. -/
def step (P : Primitives cs) (pr : CryptoProvider π)
    (setHostnameVerification : Bytes → EStateM Stop π Unit) :
    Life cs π C → LifeCall π C → Option (Except Stop LifeAnswer) × Life cs π C
  | connected c, .open config random secret provider =>
      match hostname pr setHostnameVerification config.serverName provider with
      | .ok _ provider => (some (.ok .done), opening (attempt c config random secret provider))
      | .error e _ => (some (.error e), left c e)
  | opening a, .turn =>
      turned a (Establishing.process P pr a.config a.random a.secret a.stage a.establishing)
  | connected c, .read call => answered .served (c.runCall P call)
  | connected c, .write call => answered .written (c.runWrite P call)
  | connected c, .setFlushPolicy policy => (some (.ok .done), connected { c with flushPolicy := policy })
  | connected c, .close =>
      ((answered (fun _ => .done) (c.closeInternal P) :
        Option (Except Stop LifeAnswer) × Life cs π C).1, gone (after (c.closeInternal P)))
  | life, _ => (none, life)

end Life

end GatoPskTls.Client
