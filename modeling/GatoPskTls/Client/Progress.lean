import GatoPskTls.RecordReaderRuns
import GatoPskTls.Client.Life

/-!
# `open` returns

Every record takes at least its header from the transport, and every other turn of the loop in
`open` comes closer to its end.
-/
namespace GatoPskTls.Client

open Stateful History

variable {cs : TlsCipherSuite} {π : Type} {C : P256} {P : Primitives cs}

theorem nextRecordHeader_size {t t' : Incoming} {header : RecordHeader}
    (h : nextRecordHeader t = .ok header t') : t'.size + 5 = t.size := by
  have hstream := congrArg List.length (nextRecordHeader_eq_ok h).stream
  have hlen : header.header.val.length = 5 := header.header.property
  rw [List.length_append, Incoming.stream_length, Incoming.stream_length, hlen] at hstream
  omega

theorem fetch_size {i i' : Intake} {f : RecordReader.Fetched} (h : RecordReader.fetch i = .ok f i') :
    i'.transport.size + 5 ≤ i.transport.size := by
  obtain ⟨header, i₁, hheader, h⟩ := bind_eq_ok.mp h
  obtain ⟨t₁, hnext, rfl⟩ := onPart_eq_ok.mp hheader
  obtain ⟨_, i₂, hadvance, h⟩ := bind_eq_ok.mp h
  obtain ⟨⟨start, body⟩, i₃, htake, h⟩ := bind_eq_ok.mp h
  obtain ⟨r, -, rfl⟩ := onPart_eq_ok.mp htake
  cases h
  have hsize := nextRecordHeader_size hnext
  have hle := (RecordReader.advance_size_le header.contentLength).ok hadvance
  simp only [Shrinks] at hle ⊢
  omega

/-- How many bytes the transport has for a channel. -/
def Channel.arriving (c : Channel cs) : Nat := c.intake.transport.size

theorem Channel.read_arriving {c c' : Channel cs} {start : Nat} {record : ServerRecord cs}
    (h : Channel.read P c = .ok (start, record) c') : c'.arriving + 5 ≤ c.arriving := by
  obtain ⟨f, intake, transcript, hfetch, -, -, rfl⟩ := Channel.read_eq_ok h
  exact fetch_size hfetch

/-- Nothing was read. -/
abbrev Channel.Unread : Channel cs → Channel cs → Prop := Same Channel.intake

theorem Channel.unread_writeRecord (record : ClientRecord cs) :
    Keeps Channel.Unread (Channel.writeRecord P record) :=
  Keeps.get.bind fun _ => Keeps.onPart (R := fun _ _ => True) (fun _ => trivial) fun _ _ _ => rfl

theorem Channel.unread_respond (tx : Bytes) : Keeps (@Channel.Unread cs) (Channel.respond tx) :=
  fun c => (Channel.keeps_respond tx c).intake

namespace Opening

/-- Nothing was read, and nothing checked. -/
def Quiet (o o' : Opening cs π) : Prop := o.channel.Unread o'.channel ∧ o'.checks = o.checks

instance : Std.Refl (@Quiet cs π) := ⟨fun o => ⟨Std.Refl.refl o.channel, rfl⟩⟩

instance : IsTrans (Opening cs π) Quiet :=
  ⟨fun _ _ _ h h' => ⟨h'.1.trans h.1, h'.2.trans h.2⟩⟩

theorem quiet_onChannel {α : Type} {x : Channel.M cs α} (h : Keeps Channel.Unread x) :
    Keeps (@Quiet cs π) (onChannel x) := h.onPart fun _ _ h => ⟨h, rfl⟩

theorem quiet_onProvider {α : Type} (x : EStateM Stop π α) : Keeps (@Quiet cs π) (onProvider x) :=
  Keeps.onPart (R := fun _ _ => True) (fun _ => trivial) fun _ _ _ => ⟨rfl, rfl⟩

theorem quiet_clientCertVerify (pr : CryptoProvider π) : Keeps Quiet (clientCertVerify P pr) := by
  intro o
  unfold clientCertVerify
  have hwrite := fun record => quiet_onChannel (π := π) (Channel.unread_writeRecord (P := P) record)
  cases pr.signer o.provider with
  | error e provider => exact (hwrite _).bind (fun _ => Keeps.pure _) { o with provider }
  | ok scheme provider =>
      refine Keeps.bind (R := Quiet) .get (fun o₁ => ?_) { o with provider }
      refine (quiet_onProvider _).bind fun signature => ?_
      split
      · exact .throw _
      · exact (hwrite _).bind fun _ => .pure _

theorem process_quiet {pr : CryptoProvider π} {state : State} (hstate : state ≠ .serverVerify) :
    Keeps Quiet (process P pr state) := by
  have hwrite := fun record => quiet_onChannel (π := π) (Channel.unread_writeRecord (P := P) record)
  have hrespond := fun tx => quiet_onChannel (π := π) (@Channel.unread_respond cs tx)
  cases state with
  | serverVerify => exact absurd rfl hstate
  | clientCert =>
      refine Keeps.bind ?_ fun result => (hrespond result.2).bind fun _ => .pure _
      refine Keeps.bind (.modify fun _ => ⟨rfl, rfl⟩) fun _ => Keeps.get.bind fun o => ?_
      cases o.handshake.certificateRequest with
      | none => exact .throw _
      | some request =>
          exact (quiet_onProvider _).bind fun cert => (hwrite _).bind fun _ => .pure _
  | clientCertVerify =>
      exact (quiet_clientCertVerify pr).bind fun result => (hrespond result.2).bind fun _ =>
        .fromResult _
  | clientFinished =>
      have hfinished : Keeps Channel.Unread (clientFinished P) := Keeps.get.bind fun _ =>
        (Keeps.fromResult _).bind fun _ => Channel.unread_writeRecord _
      refine (quiet_onChannel hfinished).bind fun tx => (hrespond tx).bind fun _ => ?_
      refine Keeps.get.bind fun o => ?_
      dsimp only
      split
      · exact .throw _
      · refine Keeps.bind (.modify fun _ => ⟨rfl, rfl⟩) fun _ => .bind ?_ fun _ => .pure _
        exact quiet_onChannel (Keeps.onPart (R := fun _ _ => True) (fun _ => trivial) fun _ _ _ => rfl)
  | applicationData => exact .pure _

end Opening

/-- How many turns `open` has before it, not counting records that leave it where it is. -/
def Stage.distance : Stage → Nat
  | .clientHello => 6
  | .serverHello => 5
  | .later .serverVerify => 4
  | .later .clientCert => 3
  | .later .clientCertVerify => 2
  | .later .clientFinished => 1
  | .later .applicationData => 0

theorem State.distance_le (state : State) : (Stage.later state).distance ≤ 4 := by
  cases state <;> decide

/-- What is left of an attempt: a turn for every record that may come, and those on the way. -/
def Establishing.effort (e : Establishing cs π C) (stage : Stage) : Nat :=
  e.opening.channel.arriving / 5 + stage.distance

namespace Opening

variable {pr : CryptoProvider π} {o o' : Opening cs π} {state state' : State}

theorem clientCert_next {tx : Bytes} (h : clientCert P pr o = .ok (state', tx) o') :
    (Stage.later state').distance ≤ 2 := by
  rw [clientCert, modify_bind_apply, get_bind_apply] at h
  cases hrequest : o.handshake.certificateRequest with
  | none =>
      simp only [hrequest] at h
      cases h
  | some request =>
      simp only [hrequest] at h
      obtain ⟨cert, o₁, -, h⟩ := bind_eq_ok.mp h
      obtain ⟨tx', o₂, -, h⟩ := bind_eq_ok.mp h
      cases h
      split
      · exact Nat.le_refl _
      · exact Nat.le_succ _

theorem clientCertVerify_next {tx : Bytes} (h : clientCertVerify P pr o = .ok (.ok state', tx) o') :
    (Stage.later state').distance ≤ 1 := by
  unfold clientCertVerify at h
  cases hsigner : pr.signer o.provider with
  | error e provider =>
      simp only [hsigner] at h
      obtain ⟨tx', o₁, -, h⟩ := bind_eq_ok.mp h
      cases h
  | ok scheme provider =>
      simp only [hsigner, get_bind_apply] at h
      obtain ⟨signature, o₁, -, h⟩ := bind_eq_ok.mp h
      split at h
      · cases h
      · obtain ⟨tx', o₂, -, h⟩ := bind_eq_ok.mp h
        cases h
        exact Nat.le_refl _

theorem clientFinishedFinalize_next (h : clientFinishedFinalize P o = .ok state' o') :
    state' = .applicationData := by
  rw [clientFinishedFinalize, get_bind_apply] at h
  cases hhash : o.handshake.trafficHash with
  | none =>
      simp only [hhash] at h
      cases h
  | some hash =>
      simp only [hhash, modify_bind_apply] at h
      obtain ⟨_, o₁, -, h⟩ := bind_eq_ok.mp h
      cases h
      rfl

/-- A turn of `ServerVerify` has read a record. -/
theorem process_reads (h : process P pr .serverVerify o = .ok state' o') :
    o'.channel.arriving + 5 ≤ o.channel.arriving := by
  obtain ⟨⟨start, record⟩, o₁, hread, h⟩ := bind_eq_ok.mp h
  obtain ⟨ch, hchannel, rfl⟩ := onPart_eq_ok.mp hread
  obtain ⟨r, -, rfl⟩ := onPart_eq_ok.mp (handleProcessingError_eq_ok h)
  have hput : (putReading { o with channel := ch } r).channel.arriving = ch.arriving := rfl
  rw [hput]
  exact Channel.read_arriving hchannel

/-- Every other turn has come to a later state. -/
theorem process_advances (h : process P pr state o = .ok state' o') (hverify : state ≠ .serverVerify)
    (hstate : state ≠ .applicationData) :
    (Stage.later state').distance < (Stage.later state).distance := by
  cases state with
  | serverVerify => exact absurd rfl hverify
  | clientCert =>
      obtain ⟨⟨next, tx⟩, o₁, hcert, h⟩ := bind_eq_ok.mp h
      obtain ⟨_, o₂, -, h⟩ := bind_eq_ok.mp h
      cases h
      exact Nat.lt_succ_of_le (clientCert_next hcert)
  | clientCertVerify =>
      obtain ⟨⟨result, tx⟩, o₁, hverify, h⟩ := bind_eq_ok.mp h
      obtain ⟨_, o₂, -, h⟩ := bind_eq_ok.mp h
      obtain ⟨hresult, rfl⟩ := fromResult_eq_ok.mp h
      obtain rfl := mapError_eq_ok_iff.mp hresult
      exact Nat.lt_succ_of_le (clientCertVerify_next hverify)
  | clientFinished =>
      obtain ⟨tx, o₁, -, h⟩ := bind_eq_ok.mp h
      obtain ⟨_, o₂, -, h⟩ := bind_eq_ok.mp h
      obtain rfl := clientFinishedFinalize_next h
      exact Nat.zero_lt_one
  | applicationData => exact absurd rfl hstate

end Opening

namespace Establishing

variable {pr : CryptoProvider π} {config : TlsConfig} {random : GenericArray 32} {secret : C.Secret}
  {e e' : Establishing cs π C} {stage stage' : Stage}

/-- A turn in `ServerVerify` takes a record header at least from the transport; every other turn
comes to a later stage. -/
def Moves (stage stage' : Stage) (e e' : Establishing cs π C) : Prop :=
  if stage = .later .serverVerify then
    e'.opening.channel.arriving + 5 ≤ e.opening.channel.arriving
  else stage'.distance < stage.distance

theorem process_moves (h : process P pr config random secret stage e = .ok stage' e')
    (hstage : stage ≠ .later .applicationData) : Moves stage stage' e e' := by
  unfold Moves
  cases stage with
  | clientHello =>
      obtain ⟨tx, e₁, -, h⟩ := bind_eq_ok.mp h
      obtain ⟨_, e₂, -, h⟩ := bind_eq_ok.mp h
      cases h
      exact Nat.lt_succ_self 5
  | serverHello =>
      obtain ⟨_, e₁, -, h⟩ := bind_eq_ok.mp h
      obtain ⟨state, e₂, -, h⟩ := bind_eq_ok.mp h
      cases h
      exact Nat.lt_succ_of_le (State.distance_le state)
  | later state =>
      obtain ⟨state', e₁, hprocess, h⟩ := bind_eq_ok.mp h
      cases h
      obtain ⟨o, hopening, rfl⟩ := onPart_eq_ok.mp hprocess
      split
      next heq =>
        cases heq
        exact Opening.process_reads hopening
      next hne =>
        exact Opening.process_advances hopening (fun heq => hne (congrArg Stage.later heq))
          fun heq => hstage (congrArg Stage.later heq)

/-- No turn adds to what is there to read. -/
theorem process_arriving (h : process P pr config random secret stage e = .ok stage' e') :
    e'.opening.channel.arriving ≤ e.opening.channel.arriving := by
  have hgreeting : ∀ {α : Type} (x : Greeting.M cs C α), Keeps
      (Same fun e : Establishing cs π C => e.opening.channel.arriving) (onGreeting x) := fun x =>
    Keeps.onPart (R := fun _ _ => True) (fun _ => trivial) fun _ _ _ => rfl
  cases stage with
  | clientHello =>
      obtain ⟨tx, e₁, hhello, h⟩ := bind_eq_ok.mp h
      obtain ⟨_, e₂, hsent, h⟩ := bind_eq_ok.mp h
      cases h
      unfold onChannel onOpening at hsent
      obtain ⟨o, hopening, rfl⟩ := onPart_eq_ok.mp hsent
      have hquiet := (Opening.quiet_onChannel (Channel.unread_respond tx)).ok hopening
      have hstill : o.channel.arriving = e₁.opening.channel.arriving :=
        congrArg (fun i => i.transport.size) hquiet.1
      exact (hstill.trans ((hgreeting _).ok hhello)).le
  | serverHello =>
      obtain ⟨⟨start, record⟩, e₁, hread, h⟩ := bind_eq_ok.mp h
      obtain ⟨state, e₂, hhello, h⟩ := bind_eq_ok.mp h
      cases h
      have hsame := (hgreeting _).ok (handleProcessingError_eq_ok hhello)
      unfold onChannel onOpening at hread
      obtain ⟨o, hopening, rfl⟩ := onPart_eq_ok.mp hread
      obtain ⟨ch, hchannel, rfl⟩ := onPart_eq_ok.mp hopening
      have hless : ch.arriving + 5 ≤ e.opening.channel.arriving := Channel.read_arriving hchannel
      exact (Eq.le hsame).trans (Nat.le_of_add_right_le hless)
  | later state =>
      obtain ⟨state', e₁, hprocess, h⟩ := bind_eq_ok.mp h
      cases h
      obtain ⟨o, hopening, rfl⟩ := onPart_eq_ok.mp hprocess
      by_cases hverify : state = .serverVerify
      · subst hverify
        exact Nat.le_of_add_right_le (Opening.process_reads hopening)
      · have hquiet := (Opening.process_quiet hverify).ok hopening
        exact (congrArg (fun i => i.transport.size) hquiet.1).le

theorem process_closer (h : process P pr config random secret stage e = .ok stage' e')
    (hstage : stage ≠ .later .applicationData) : e'.effort stage' < e.effort stage := by
  have hmoves := process_moves h hstage
  have hless := process_arriving h
  unfold Moves at hmoves
  unfold effort
  split at hmoves
  next heq =>
    subst heq
    -- a record may leave the client in `ServerVerify`, which is as far as any stage behind it
    obtain ⟨state', e₁, -, h⟩ := bind_eq_ok.mp h
    cases h
    have hfrom : (Stage.later .serverVerify).distance = 4 := rfl
    have hto := State.distance_le state'
    omega
  next => omega

end Establishing

namespace Life

variable {pr : CryptoProvider π} {setHostnameVerification : Bytes → EStateM Stop π Unit}

/-- An attempt is under way, with so much left of it. -/
def OpensWithin (n : Nat) : Life cs π C → Prop
  | opening a => a.stage ≠ .later .applicationData ∧ a.establishing.effort a.stage ≤ n
  | _ => True

/-- Each turn takes something off, or `open` is done. -/
theorem turn_closer {n : Nat} {s : Life cs π C} (h : OpensWithin (n + 1) s) :
    OpensWithin n (step P pr setHostnameVerification s .turn).2 := by
  cases s with
  | connected c => trivial
  | gone c => trivial
  | opening a =>
      obtain ⟨hstage, heffort⟩ := h
      simp only [step]
      cases hturn : Establishing.process P pr a.config a.random a.secret a.stage a.establishing with
      | error stop e => cases stop <;> trivial
      | ok stage e =>
          simp only [turned]
          split
          · trivial
          next hnext =>
            refine ⟨hnext, ?_⟩
            have := Establishing.process_closer hturn hstage
            simp only
            omega

theorem turns_closer {n : Nat} {h : List (LifeEvent cs π C)} {s : Life cs π C}
    (hs : OpensWithin n s) : OpensWithin 0
      (runAll (step P pr setHostnameVerification) (h, s) (List.replicate n .turn)).2 := by
  induction n generalizing h s with
  | zero => exact hs
  | succ n ih => exact ih (turn_closer hs)

end Life

theorem Stage.eq_of_distance_zero {stage : Stage} (h : stage.distance = 0) :
    stage = .later .applicationData := by
  cases stage with
  | later state =>
      cases state with
      | applicationData => rfl
      | _ => cases h
  | _ => cases h

/-- `open` returns. Whatever the peer and the transport do, a turn for every five bytes there are
to read and six more bring it to its end, since each of them makes progress. -/
theorem open_returns (P : Primitives cs) (pr : CryptoProvider π)
    (setHostnameVerification : Bytes → EStateM Stop π Unit) (c : TlsConnection cs) (config : TlsConfig)
    (random : GenericArray 32) (secret : C.Secret) (provider : π) (a : Attempt cs π C) :
    (runAll (Life.step P pr setHostnameVerification) ([], .connected c)
      (.open config random secret provider ::
        List.replicate (c.channel.intake.transport.size / 5 + 6) .turn)).2 ≠ .opening a ∧
      ∀ (stage stage' : Stage) (e e' : Establishing cs π C),
        Establishing.process P pr config random secret stage e = .ok stage' e' →
        stage ≠ .later .applicationData → Establishing.Moves stage stage' e e' := by
  have hbegun : Life.OpensWithin (c.channel.intake.transport.size / 5 + 6)
      (Life.step P pr setHostnameVerification (.connected c)
        (.open config random secret provider)).2 := by
    simp only [Life.step]
    cases Life.hostname pr setHostnameVerification config.serverName provider with
    | ok u provider => exact ⟨Stage.noConfusion, Nat.le_refl _⟩
    | error e provider => cases e <;> trivial
  refine ⟨fun hend => ?_, fun stage stage' e e' => Establishing.process_moves⟩
  have hwithin : Life.OpensWithin 0 (runAll (Life.step P pr setHostnameVerification)
      ([], .connected c) (.open config random secret provider ::
        List.replicate (c.channel.intake.transport.size / 5 + 6) .turn)).2 :=
    Life.turns_closer hbegun
  rw [hend] at hwithin
  obtain ⟨hstage, heffort⟩ := hwithin
  refine hstage (Stage.eq_of_distance_zero ?_)
  unfold Establishing.effort at heffort
  omega

end GatoPskTls.Client
