import GatoPskTls.Server.Calls
import GatoPskTls.Server.Peer

/-!
# Server: the order of the calls

A session stores no phase. Which calls it refuses out of turn therefore rests on what its
key schedule happens to hold, and the statements here say exactly on what.
-/
namespace GatoPskTls.Server

open GatoPskTls Stateful History

variable {cs : TlsCipherSuite} {P : Primitives cs} {X : X25519}

namespace Session

/-- A client Finished was accepted. -/
def AcceptsFinished (e : Event (Session cs) Call Answer) : Prop := e.out = .finished (.ok ())

/-- Application data was sealed, or accepted from the peer. -/
def PassesAppData (e : Event (Session cs) Call Answer) : Prop :=
  (∃ plaintext out record, e.call = .encryptAppData plaintext out ∧ e.out = .bytes (.ok record)) ∨
  (∃ record buffer data, e.call = .decryptAppData record buffer ∧ e.out = .bytes (.ok data)) ∨
  ∃ record buffer data, e.call = .decryptAppDataOrAlert record buffer ∧
    e.out = .dataOrAlert (.ok (.appData data))

/-- The checks an application-data call makes itself: sizes and framing, the AEAD under
the keys the schedule holds, and the content type. -/
def Admits (P : Primitives cs) (s : Session cs) : Call → Prop
  | .encryptAppData plaintext out => Sealable P s.schedule.serverState.state plaintext out
  | .decryptAppData record buffer | .decryptAppDataOrAlert record buffer =>
      ∃ payload, Openable P s.schedule.clientState.state record buffer .applicationData payload
  | _ => False

theorem passesAppData_iff {e : Event (Session cs) Call Answer}
    (he : e.out = (step P X e.pre e.call).1) : PassesAppData e ↔ Admits P e.pre e.call := by
  constructor
  · rintro (⟨plaintext, out, record, hcall, hout⟩ | ⟨record, buffer, data, hcall, hout⟩ |
      ⟨record, buffer, data, hcall, hout⟩)
    all_goals
      rw [he, hcall] at hout
      rw [hcall]
    · exact (encryptAppData_eq_ok.mp (outcome_eq_ok (Answer.bytes.inj hout))).1
    · exact ⟨data, (decryptAppData_eq_ok.mp (outcome_eq_ok (Answer.bytes.inj hout))).1⟩
    · exact ⟨data, (decryptAppDataOrAlert_appData.mp
        (outcome_eq_ok (Answer.dataOrAlert.inj hout))).1⟩
  · intro hadmits
    cases hcall : e.call with
    | encryptAppData plaintext out =>
        rw [hcall] at hadmits
        obtain ⟨ct, hct⟩ := Option.isSome_iff_exists.mp hadmits.aead
        have hok := encryptAppData_eq_ok.mpr ⟨hadmits, ct, hct, rfl, rfl⟩
        exact .inl ⟨_, _, _, hcall, by rw [he, hcall, step, hok, outcome_ok]⟩
    | decryptAppData record buffer =>
        rw [hcall] at hadmits
        obtain ⟨payload, hopen⟩ := hadmits
        have hok := decryptAppData_eq_ok.mpr ⟨hopen, rfl⟩
        exact .inr (.inl ⟨_, _, payload, hcall, by rw [he, hcall, step, hok, outcome_ok]⟩)
    | decryptAppDataOrAlert record buffer =>
        rw [hcall] at hadmits
        obtain ⟨payload, hopen⟩ := hadmits
        have hok := decryptAppDataOrAlert_appData.mpr ⟨hopen, rfl⟩
        exact .inr (.inr ⟨_, _, payload, hcall, by rw [he, hcall, step, hok, outcome_ok]⟩)
    | _ =>
        rw [hcall] at hadmits
        exact hadmits.elim

theorem not_admits {s : Session cs} {record buffer : Bytes}
    (h : openedWith P s.schedule.clientState.state record = none) :
    ¬Admits P s (.decryptAppData record buffer) := by
  rintro ⟨payload, hopen⟩
  obtain ⟨plaintext, hopened, -⟩ := hopen.opened
  cases h.symm.trans hopened

/-- No application data passes before a client Finished has been accepted. -/
def Gated (h : List (Event (Session cs) Call Answer)) : Prop :=
  ∀ newer e older, h = newer ++ e :: older → PassesAppData e → ∃ e' ∈ older, AcceptsFinished e'

/-- A session gates application data in a history exactly when every application-data call
made before the first accepted Finished fails its own checks. -/
theorem gated_iff {h : List (Event (Session cs) Call Answer)} {s : Session cs}
    (hr : Reaches (step P X) new h s) :
    Gated h ↔ ∀ newer e older, h = newer ++ e :: older →
      (∀ e' ∈ older, ¬AcceptsFinished e') → ¬Admits P e.pre e.call := by
  constructor
  · intro hg newer e older hsplit hnone hadmits
    subst hsplit
    obtain ⟨e', he', haccepts⟩ :=
      hg newer e older rfl ((passesAppData_iff hr.split.2.1).mpr hadmits)
    exact hnone e' he' haccepts
  · intro hc newer e older hsplit hpasses
    subst hsplit
    by_contra hnone
    exact hc newer e older rfl (fun e' he' haccepts => hnone ⟨e', he', haccepts⟩)
      ((passesAppData_iff hr.split.2.1).mp hpasses)

/-- The newest call of a history, or an earlier one. -/
theorem cons_split {h newer older : List (Event (Session cs) Call Answer)}
    {e e' : Event (Session cs) Call Answer} (hsplit : e :: h = newer ++ e' :: older) :
    (e' = e ∧ older = h) ∨ ∃ newer', h = newer' ++ e' :: older := by
  cases newer with
  | nil =>
      cases hsplit
      exact .inl ⟨rfl, rfl⟩
  | cons x newer => exact .inr ⟨newer, (List.cons.inj hsplit).2⟩

/-- The only call of a one-call history. -/
theorem singleton_split {newer older : List (Event (Session cs) Call Answer)}
    {e e' : Event (Session cs) Call Answer} (h : [e] = newer ++ e' :: older) :
    e' = e ∧ older = [] := by
  rcases cons_split h with hlast | ⟨newer', hnil⟩
  · exact hlast
  · exact absurd hnil.symm (List.append_ne_nil_of_right_ne_nil _ (List.cons_ne_nil _ _))

theorem pair_split {newer older : List (Event (Session cs) Call Answer)}
    {e e₁ e₂ : Event (Session cs) Call Answer} (h : [e₂, e₁] = newer ++ e :: older) :
    (e = e₂ ∧ older = [e₁]) ∨ (e = e₁ ∧ older = []) := by
  rcases cons_split h with hlast | ⟨newer', hfirst⟩
  · exact .inl hlast
  · exact .inr (singleton_split hfirst)

/-- A call of the evaluated session, and its event. -/
def event (s : Session .aes128GcmSha256) (c : Call) : Event (Session .aes128GcmSha256) Call Answer :=
  ⟨s, c, (step Peer.suite Peer.additive s c).1⟩

/-- The Finished of a client that holds the session's schedule. -/
def finishing (s : Session .aes128GcmSha256) : Call :=
  .processClientFinished (Peer.finishing s.schedule)

def opening : Call := .processClientHello Peer.direct Peer.config Peer.room

def openedSession : Session .aes128GcmSha256 := (step Peer.suite Peer.additive new opening).2

/-- A record with a damaged tag, while the client's Finished is awaited. -/
def damaged : Call := .decryptAppData (protectedRecord (List.replicate 20 0)) Peer.room

def damagedSession : Session .aes128GcmSha256 := (step Peer.suite Peer.additive openedSession damaged).2

def completedSession : Session .aes128GcmSha256 :=
  (step Peer.suite Peer.additive damagedSession (finishing openedSession)).2

/-- A byte of application data. -/
def speaking : Call := .encryptAppData [0x68] Peer.room

theorem damaged_not_opened : openedWith Peer.suite openedSession.schedule.clientState.state
    (protectedRecord (List.replicate 20 0)) = none := by decide +kernel

theorem finishing_after_damage :
    AcceptsFinished (event damagedSession (finishing openedSession)) :=
  (by decide +kernel : (event damagedSession (finishing openedSession)).out = .finished (.ok ()))

theorem speaking_passes : PassesAppData (event completedSession speaking) :=
  .inl ⟨_, _, _, rfl, (by decide +kernel : (event completedSession speaking).out =
    .bytes (.ok (event completedSession speaking).out.carried))⟩

/-- In this handshake a damaged record is turned down, and application data is sealed only behind
the Finished. -/
theorem damaged_record_gated :
    PassesAppData (event completedSession speaking) ∧
      Gated [event completedSession speaking, event damagedSession (finishing openedSession),
        event openedSession damaged, event new opening] := by
  have hopened : Reaches (step Peer.suite Peer.additive) new [event new opening] openedSession :=
    .call opening .nil
  have hdamaged : Reaches (step Peer.suite Peer.additive) new
    [event openedSession damaged, event new opening] damagedSession := .call damaged hopened
  have hfinished : Reaches (step Peer.suite Peer.additive) new
    [event damagedSession (finishing openedSession), event openedSession damaged, event new opening]
    completedSession := .call (finishing openedSession) hdamaged
  refine ⟨speaking_passes, (gated_iff (.call speaking hfinished)).mpr ?_⟩
  intro newer e older hsplit hnone hadmits
  rcases cons_split hsplit with ⟨-, rfl⟩ | ⟨newer, hsplit⟩
  · exact hnone _ List.mem_cons_self finishing_after_damage
  rcases cons_split hsplit with ⟨rfl, -⟩ | ⟨newer, hsplit⟩
  · exact hadmits
  rcases pair_split hsplit with ⟨rfl, -⟩ | ⟨rfl, -⟩
  · simp only [event, damaged] at hadmits
    exact not_admits damaged_not_opened hadmits
  · exact hadmits

/-- A new session seals a byte of application data, under its all-zero key. -/
def earlyEvent : Event (Session .aes128GcmSha256) Call Answer :=
  ⟨new, .encryptAppData [0x68] Peer.room,
    (step Peer.suite Peer.additive new (.encryptAppData [0x68] Peer.room)).1⟩

theorem earlyEvent_out : earlyEvent.out = .bytes (.ok earlyEvent.out.carried) := by decide +kernel

theorem new_session_seals_app_data :
    Reaches (step Peer.suite Peer.additive) new [earlyEvent]
        (step Peer.suite Peer.additive new (.encryptAppData [0x68] Peer.room)).2 ∧
      earlyEvent.out = .bytes (.ok earlyEvent.out.carried) ∧
      earlyEvent.pre.schedule.serverState.state.key = .zeros 16 ∧ ¬Gated [earlyEvent] := by
  refine ⟨.call _ .nil, earlyEvent_out, rfl, fun hg => ?_⟩
  obtain ⟨e', he', -⟩ := hg [] earlyEvent [] rfl (.inl ⟨_, _, _, rfl, earlyEvent_out⟩)
  cases he'

def CallsHello (e : Event (Session cs) Call Answer) : Prop :=
  ∃ msg config out, e.call = .processClientHello msg config out

/-- A ClientHello was answered, with a flight or with a retry. -/
def AnswersHello (e : Event (Session cs) Call Answer) : Prop :=
  ∃ answer, e.out = .handshake (.ok answer)

/-- A first flight was sent. -/
def SendsFlight (e : Event (Session cs) Call Answer) : Prop :=
  ∃ flight, e.out = .handshake (.ok (.firstFlight flight))

/-- The most recent ClientHello got a first flight, and no Finished was accepted since. -/
def AwaitsFinished (h : List (Event (Session cs) Call Answer)) : Prop :=
  ∃ since e before, h = since ++ e :: before ∧ SendsFlight e ∧
    ∀ e' ∈ since, ¬CallsHello e' ∧ ¬AcceptsFinished e'

/-- A Finished completes the latest flight, once; after a flight no ClientHello is answered. -/
def Ordered (h : List (Event (Session cs) Call Answer)) : Prop :=
  ∀ newer e older, h = newer ++ e :: older →
    (AcceptsFinished e → AwaitsFinished older) ∧
    (AnswersHello e → ∀ e' ∈ older, ¬SendsFlight e')

/-- What keeps a history in order. A Finished that is not awaited does not open under the
client keys in force, if there are any; and a ClientHello after a flight has no binder that
verifies under the binder key it is checked with. -/
structure Disciplined (P : Primitives cs) (h : List (Event (Session cs) Call Answer)) : Prop where
  finished : ∀ newer e older record, h = newer ++ e :: older →
    e.call = .processClientFinished record → ¬AwaitsFinished older →
    e.pre.schedule.clientState.state.trafficSecret ≠ .uninitialized →
    openedWith P e.pre.schedule.clientState.state record = none
  hello : ∀ newer e older msg config out, h = newer ++ e :: older →
    e.call = .processClientHello msg config out → (∃ e' ∈ older, SendsFlight e') →
    ∀ offer, examine msg config e.pre.hrrState = .ok offer →
      ¬BinderVerifies P (prepared P config e.pre).schedule.clientState.binderKey e.pre.binderBase
        msg offer

theorem step_answersHello {s : Session cs} {c : Call} {answer : HandshakeOutput}
    (h : (step P X s c).1 = .handshake (.ok answer)) :
    ∃ msg config out offer, c = .processClientHello msg config out ∧
      examine msg config s.hrrState = .ok offer ∧
      BinderVerifies P (prepared P config s).schedule.clientState.binderKey s.binderBase msg offer := by
  cases c with
  | processClientHello msg config out =>
      obtain ⟨offer, hexamine, hb⟩ :=
        processClientHello_checked (outcome_eq_ok (Answer.handshake.inj h))
      exact ⟨msg, config, out, offer, rfl, hexamine, hb⟩
  | _ => cases h

theorem ordered_of_disciplined {h : List (Event (Session cs) Call Answer)} {s : Session cs}
    (hr : Reaches (step P X) new h s) (hd : Disciplined P h) : Ordered h := by
  intro newer e older hsplit
  have hout : e.out = (step P X e.pre e.call).1 := (hsplit ▸ hr).split.2.1
  constructor
  · intro haccepts
    obtain ⟨record, hcall, f, -⟩ := step_finished (hout.symm.trans haccepts)
    by_contra hawaits
    have hnone := hd.finished newer e older record hsplit hcall hawaits (by rw [f.secret]; simp)
    cases f.opened.symm.trans hnone
  · rintro ⟨answer, hanswer⟩ e' he' hflight
    obtain ⟨msg, config, out, offer, hcall, hexamine, hb⟩ :=
      step_answersHello (hout.symm.trans hanswer)
    exact hd.hello newer e older msg config out hsplit hcall ⟨e', he', hflight⟩ offer hexamine hb

/-- A ClientHello into a buffer that the ServerHello fills. -/
def cramped : Call := .processClientHello Peer.direct Peer.config (Peer.room.take 102)

def crampedSession : Session .aes128GcmSha256 := (step Peer.suite Peer.additive new cramped).2

theorem cramped_fails :
    (event new cramped).out = .handshake (.error (.err .insufficientSpace)) := by decide +kernel

theorem cramped_finished :
    (event crampedSession (finishing crampedSession)).out = .finished (.ok ()) := by decide +kernel

theorem opening_flies : SendsFlight (event new opening) :=
  ⟨(event new opening).out.carried, by decide +kernel⟩

/-- A ClientHello whose binder is made with the early secret that a second ClientHello is
checked with. -/
def reopening : Call :=
  .processClientHello (Peer.bound Peer.suite
      (withTranscript (Rfc8446.early Peer.suite Peer.config.pskSecret openedSession.schedule) [])
      (Peer.hello [1] [Peer.additive.mult Peer.clientSecret Peer.additive.basepoint]))
    Peer.config Peer.room

theorem reopening_flies : SendsFlight (event openedSession reopening) :=
  ⟨(event openedSession reopening).out.carried, by decide +kernel⟩

/-- A ClientHello that failed is completed by a Finished; and after a flight a ClientHello is
answered with another one. -/
theorem calls_out_of_order :
    (∃ s, Reaches (step Peer.suite Peer.additive) new
        [event crampedSession (finishing crampedSession), event new cramped] s) ∧
      ¬Ordered [event crampedSession (finishing crampedSession), event new cramped] ∧
    (∃ s, Reaches (step Peer.suite Peer.additive) new
        [event openedSession reopening, event new opening] s) ∧
      ¬Ordered [event openedSession reopening, event new opening] := by
  refine ⟨⟨_, .call _ (.call _ .nil)⟩, fun ho => ?_, ⟨_, .call _ (.call _ .nil)⟩, fun ho => ?_⟩
  · obtain ⟨since, e, before, hsplit, ⟨flight, hflight⟩, -⟩ := (ho [] _ _ rfl).1 cramped_finished
    obtain ⟨rfl, -⟩ := singleton_split hsplit
    cases cramped_fails.symm.trans hflight
  · obtain ⟨flight, hflight⟩ := reopening_flies
    exact (ho [] _ _ rfl).2 ⟨_, hflight⟩ _ List.mem_cons_self opening_flies

theorem finishing_accepted : AcceptsFinished (event openedSession (finishing openedSession)) :=
  (by decide +kernel : (event openedSession (finishing openedSession)).out = .finished (.ok ()))

theorem honest_calls_ordered :
    AcceptsFinished (event openedSession (finishing openedSession)) ∧
      Ordered [event openedSession (finishing openedSession), event new opening] := by
  refine ⟨finishing_accepted, @ordered_of_disciplined _ Peer.suite Peer.additive _ _
    (.call (finishing openedSession) (.call opening .nil)) ⟨?_, ?_⟩⟩
  · intro newer e older record hsplit hcall hawaits
    rcases pair_split hsplit with ⟨-, rfl⟩ | ⟨rfl, -⟩
    · exact absurd ⟨[], _, [], rfl, opening_flies, by simp⟩ hawaits
    · cases hcall
  · rintro newer e older msg config out hsplit hcall ⟨e', he', -⟩
    rcases pair_split hsplit with ⟨rfl, -⟩ | ⟨-, rfl⟩
    · cases hcall
    · cases he'

end Session

end GatoPskTls.Server
