import Vaux.Broker.System

/-!
# What an action can do

The pool is changed by three actions only, and the will of a session by three.  All
other actions leave what the rest of the development is about as it is.
-/

namespace Vaux
namespace Broker

open Wire Mqtt

/-! ## Kinds of actions -/

namespace Action

/-- The actions up to the end of `handle_connect` under the lock of the pool. -/
def connecting : Action → Bool
  | .negotiate _ | .enterPool _ | .lockOld .. | .disconnectOld .. | .settle .. | .enroll .. => true
  | _ => false

/-- The actions under the write lock of the pool, with what is to be enrolled. -/
def holds : Action → Option (Admission × Option Ref)
  | .lockOld _ a target | .disconnectOld _ a target | .settle a target | .enroll a target =>
    some (a, target)
  | _ => none

/-- The session that an action of its own connection works on. -/
def session : Action → Option Ref
  | .grantExpiry ref _ | .openSession ref | .track ref _ _ | .acceptSession ref | .takeWill ref
  | .setPendingWill ref _ | .clearWill ref | .acknowledge ref _ => some ref
  | _ => none

/-- The actions that end the session or the task. -/
def ends : Action → Bool
  | .takeWill _ | .clearWill _ | .deactivate _ | .finish _ => true
  | _ => false

/-- The actions of `route_publish`. -/
def routing : Action → Bool
  | .route .. | .lockPool | .deliver .. | .leavePool => true
  | _ => false

def changesPool : Action → Bool
  | .enterPool _ | .enroll .. | .deactivate _ => true
  | _ => false

def changesWill : Action → Bool
  | .takeWill _ | .clearWill _ | .enroll .. => true
  | _ => false

end Action

def Next.more : Next → List Action
  | .go more | .opened _ _ more => more
  | .accepted _ | .returned _ => []

/-! ## Frames -/

/-- The pool, its writer and the flags of the sessions are the same. -/
structure Shared.Frame (sh sh' : Shared) : Prop where
  config : sh'.config = sh.config
  pool : sh'.pool = sh.pool
  poolWriter : sh'.poolWriter = sh.poolWriter
  nextRef : sh'.nextRef = sh.nextRef
  id : ∀ ref, (sh'.sessions ref).id = (sh.sessions ref).id
  connected : ∀ ref, (sh'.sessions ref).connected = (sh.sessions ref).connected

namespace Shared

section

variable {sh sh' sh'' : Shared} {t : TaskId} {c : Choice} {a : Action} {next : Next} {ref : Ref}

theorem Frame.refl (sh : Shared) : sh.Frame sh :=
  ⟨rfl, rfl, rfl, rfl, fun _ => rfl, fun _ => rfl⟩

theorem Frame.trans (h : sh.Frame sh') (h' : sh'.Frame sh'') : sh.Frame sh'' :=
  ⟨h'.config.trans h.config, h'.pool.trans h.pool, h'.poolWriter.trans h.poolWriter,
    h'.nextRef.trans h.nextRef, fun ref => (h'.id ref).trans (h.id ref),
    fun ref => (h'.connected ref).trans (h.connected ref)⟩

theorem frame_setSession {session : Session} (hid : session.id = (sh.sessions ref).id)
    (hconnected : session.connected = (sh.sessions ref).connected) :
    sh.Frame (sh.setSession ref session) := by
  refine ⟨rfl, rfl, rfl, rfl, fun ref' => ?_, fun ref' => ?_⟩
  all_goals
    by_cases h : ref' = ref
    · subst h
      simpa [setSession]
    · simp [setSession, h]

theorem frame_of_sessions (hconfig : sh'.config = sh.config) (hpool : sh'.pool = sh.pool)
    (hwriter : sh'.poolWriter = sh.poolWriter) (hnext : sh'.nextRef = sh.nextRef)
    (hsessions : sh'.sessions = sh.sessions) : sh.Frame sh' :=
  ⟨hconfig, hpool, hwriter, hnext, fun _ => by rw [hsessions], fun _ => by rw [hsessions]⟩

theorem frame_push (ch : ChannelId) (msg : SessionControl) : sh.Frame (sh.push ch msg) :=
  frame_of_sessions rfl rfl rfl rfl rfl

theorem frame_close (ch : Option ChannelId) : sh.Frame (sh.close ch) := by
  cases ch <;> exact frame_of_sessions rfl rfl rfl rfl rfl

theorem frame_cancel (sh : Shared) (token : Option Token) : sh.Frame (sh.cancel token) := by
  cases token <;> exact frame_of_sessions rfl rfl rfl rfl rfl

theorem sessions_cancel (token : Option Token) : (sh.cancel token).sessions = sh.sessions := by
  cases token <;> rfl

theorem sessions_close (ch : Option ChannelId) : (sh.close ch).sessions = sh.sessions := by
  cases ch <;> rfl

theorem frame_trySend {ch : ChannelId} {msg : SessionControl} (h : sh.trySend ch msg = some sh') :
    sh.Frame sh' ∧ sh'.sessions = sh.sessions := by
  unfold trySend at h
  split at h
  · cases h
  · split at h
    · cases h
      exact ⟨frame_push ch msg, rfl⟩
    · cases h

theorem handOver_same {publish out : Publish} {qos : QoSLevel} {target target' : Session}
    (h : handOver publish qos target = .ok (out, target')) :
    target'.id = target.id ∧ target'.connected = target.connected ∧
      target'.willMessage = target.willMessage := by
  unfold handOver at h
  cases hqos : publish.qos with
  | ok q =>
      rw [hqos, Outcome.bind_ok] at h
      simp only at h
      split at h
      · cases h
        exact ⟨rfl, rfl, rfl⟩
      · cases h
        exact ⟨rfl, rfl, rfl⟩
  | err e => simp [hqos, Outcome.bind] at h
  | panic => simp [hqos, Outcome.bind] at h

theorem frame_deliver {publish : Publish} {sender : String} {sub : Subscriber}
    (h : sh.deliver publish sender sub = some sh') :
    sh.Frame sh' ∧ ∀ ref, (sh'.sessions ref).willMessage = (sh.sessions ref).willMessage := by
  unfold deliver at h
  split at h
  · cases h
    exact ⟨.refl _, fun _ => rfl⟩
  · cases hactive : sh.pool.getActive sub.sessionId with
    | none =>
        simp only [hactive, Option.some.injEq] at h
        subst h
        exact ⟨.refl _, fun _ => rfl⟩
    | some ref =>
        simp only [hactive] at h
        split at h
        · rename_i out target hover
          obtain ⟨hid, hconnected, hwill⟩ := handOver_same hover
          have hset : sh.Frame (sh.setSession ref target) := frame_setSession hid hconnected
          have hsame : ∀ ref', ((sh.setSession ref target).sessions ref').willMessage =
              (sh.sessions ref').willMessage := by
            intro ref'
            by_cases h' : ref' = ref
            · subst h'
              simpa [setSession]
            · simp [setSession, h']
          split at h
          · rename_i sent hsend
            cases h
            obtain ⟨hframe, hsessions⟩ := frame_trySend hsend
            exact ⟨hset.trans hframe, fun ref' => by rw [hsessions, hsame]⟩
          · cases h
            cases hsend : (sh.setSession ref target).trySend target.control
              (.disconnect .quotaExceeded) with
            | none => exact ⟨hset, hsame⟩
            | some sent =>
                obtain ⟨hframe, hsessions⟩ := frame_trySend hsend
                exact ⟨hset.trans hframe, fun ref' => by rw [Option.getD_some, hsessions, hsame]⟩
        · cases h

theorem frame_disconnectOld (h : sh.disconnectOld ref = some sh') :
    sh.Frame sh' ∧ sh'.sessions = sh.sessions := by
  unfold disconnectOld at h
  simp only at h
  split at h
  · cases h
    exact ⟨frame_of_sessions rfl rfl rfl rfl rfl, rfl⟩
  · obtain ⟨sent, hsend, rfl⟩ := Option.map_eq_some_iff.mp h
    obtain ⟨hframe, hsessions⟩ := frame_trySend hsend
    exact ⟨hframe.trans (frame_of_sessions rfl rfl rfl rfl rfl), hsessions⟩

theorem frame_initiateWill (sh : Shared) (ref : Ref) (will : Option WillMessage) :
    sh.Frame (sh.initiateWill ref will).1 ∧ (sh.initiateWill ref will).1.sessions = sh.sessions := by
  cases will with
  | none => exact ⟨.refl _, rfl⟩
  | some will =>
      unfold initiateWill
      simp only
      split
      · exact ⟨.refl _, rfl⟩
      · exact ⟨frame_of_sessions rfl rfl rfl rfl rfl, rfl⟩

/-- A session changed in neither its id nor its flag. -/
theorem frame_of_if {p : Prop} [Decidable p] {session : Session}
    (h : (if p then some (sh.setSession ref session, Next.go []) else none) = some (sh', next))
    (hid : session.id = (sh.sessions ref).id)
    (hconnected : session.connected = (sh.sessions ref).connected) : sh.Frame sh' := by
  split at h
  · cases h
    exact frame_setSession hid hconnected
  · cases h

theorem frame_of_perform (h : sh.perform t c a = some (sh', next)) (ha : a.changesPool = false) :
    sh.Frame sh' := by
  cases a with
  | enterPool | enroll | deactivate => cases ha
  | negotiate connect =>
      simp only [perform] at h
      split at h
      · cases h
        exact .refl _
      · cases h
  | lockOld ref a target =>
      cases h
      exact frame_of_sessions rfl rfl rfl rfl rfl
  | disconnectOld ref a target =>
      obtain ⟨sent, hsend, heq⟩ := Option.map_eq_some_iff.mp h
      cases heq
      exact (frame_disconnectOld hsend).1
  | settle a target =>
      cases h
      exact .refl _
  | grantExpiry ref expiry =>
      simp only [perform] at h
      split at h
      · cases expiry with
        | none =>
            cases h
            exact .refl _
        | some expiry =>
            cases h
            exact frame_setSession rfl rfl
      · cases h
  | openSession ref =>
      simp only [perform] at h
      split at h
      · cases h
        exact frame_setSession rfl rfl
      · cases h
  | track ref packetId publish => exact frame_of_if h rfl rfl
  | acceptSession ref =>
      cases h
      exact .refl _
  | write packet =>
      cases h
      exact .refl _
  | shutdown =>
      cases h
      exact .refl _
  | takeWill ref =>
      simp only [perform] at h
      split at h
      · have hset : sh.Frame (sh.setSession ref (sh.sessions ref).takeWill.2) :=
          frame_setSession rfl rfl
        have hinitiate := (frame_initiateWill (sh.setSession ref (sh.sessions ref).takeWill.2) ref
          (sh.sessions ref).takeWill.1).1
        have hfst : _ = sh' := congrArg Prod.fst (Option.some.inj h)
        exact hfst ▸ hset.trans hinitiate
      · cases h
  | setPendingWill ref token =>
      simp only [perform] at h
      split at h
      · cases h
        refine (frame_cancel _ _).trans (frame_setSession ?_ ?_)
        · rw [sessions_cancel]
          rfl
        · rw [sessions_cancel]
          rfl
      · cases h
  | clearWill ref => exact frame_of_if h rfl rfl
  | acknowledge ref packetId => exact frame_of_if h rfl rfl
  | subscribe sessionId p =>
      obtain ⟨⟨subscribed, suback⟩, hsub, heq⟩ := Option.map_eq_some_iff.mp h
      cases heq
      simp only [handleSubscribe, Option.bind_eq_bind, Option.bind_eq_some_iff] at hsub
      obtain ⟨tree, -, heq⟩ := hsub
      cases heq
      exact frame_of_sessions rfl rfl rfl rfl rfl
  | unsubscribe sessionId p =>
      obtain ⟨⟨unsubscribed, unsuback⟩, hunsub, heq⟩ := Option.map_eq_some_iff.mp h
      cases heq
      simp only [handleUnsubscribe, Option.bind_eq_bind, Option.bind_eq_some_iff] at hunsub
      obtain ⟨⟨tree, reasons⟩, -, heq⟩ := hunsub
      cases heq
      exact frame_of_sessions rfl rfl rfl rfl rfl
  | route publish sender =>
      obtain ⟨subscribers, -, heq⟩ := Option.map_eq_some_iff.mp h
      cases heq
      exact .refl _
  | lockPool =>
      simp only [perform] at h
      split at h
      · cases h
        exact frame_of_sessions rfl rfl rfl rfl rfl
      · cases h
  | deliver publish sender sub =>
      obtain ⟨delivered, hdeliver, heq⟩ := Option.map_eq_some_iff.mp h
      cases heq
      exact (frame_deliver hdeliver).1
  | leavePool =>
      cases h
      exact frame_of_sessions rfl rfl rfl rfl rfl
  | finish result =>
      cases h
      exact .refl _

/-! ## The pool -/

theorem choose_cases (sh : Shared) (a : Admission) :
    (∃ existing pool, a.connect.cleanStart ∧ sh.pool.remove a.sessionId = (existing, pool) ∧
      (sh.choose a).1 = { sh with pool } ∧ (sh.choose a).2.holds = some (a, none)) ∨
    (∃ ref pool sessions, sh.pool.activate sh.sessions a.sessionId = some (ref, pool, sessions) ∧
      (sh.choose a).1 = { sh with pool, sessions } ∧ (sh.choose a).2.holds = some (a, some ref)) ∨
    (∃ ref, sh.pool.getActive a.sessionId = some ref ∧
      (sh.choose a).1 = sh ∧ (sh.choose a).2.holds = some (a, some ref)) ∨
    (sh.pool.activate sh.sessions a.sessionId = none ∧ sh.pool.getActive a.sessionId = none ∧
      (sh.choose a).1 = sh ∧ (sh.choose a).2.holds = some (a, none)) := by
  unfold choose
  by_cases hclean : a.connect.cleanStart
  · left
    rw [if_pos hclean]
    rcases hremove : sh.pool.remove a.sessionId with ⟨existing | existing, pool⟩
    · exact ⟨none, pool, hclean, rfl, rfl, rfl⟩
    · refine ⟨some existing, pool, hclean, rfl, rfl, ?_⟩
      simp only
      split <;> rfl
  · right
    rw [if_neg hclean]
    rcases hactivate : sh.pool.activate sh.sessions a.sessionId with _ | ⟨ref, pool, sessions⟩
    · cases hactive : sh.pool.getActive a.sessionId with
      | some ref => exact .inr (.inl ⟨ref, rfl, rfl, rfl⟩)
      | none => exact .inr (.inr ⟨rfl, rfl, rfl, rfl⟩)
    · exact .inl ⟨ref, pool, sessions, rfl, rfl, rfl⟩

theorem enterPool_cases {a : Admission} (h : sh.enterPool t a = some (sh', next)) :
    sh.poolFree = true ∧
      (sh.rejects a = true ∧ sh' = sh ∧
          next = .go [.write (.connAck { a.ack with reason := .quotaExceeded }), .shutdown] ∨
        sh.rejects a = false ∧ sh' = { (sh.choose a).1 with poolWriter := some t } ∧
          next = .go [(sh.choose a).2]) := by
  unfold enterPool at h
  split at h
  · rename_i hfree
    refine ⟨hfree, ?_⟩
    split at h
    · rename_i hreject
      cases h
      exact .inl ⟨hreject, rfl, rfl⟩
    · rename_i hreject
      cases h
      exact .inr ⟨by simpa using hreject, rfl, rfl⟩
  · cases h

/-! ## Sessions -/

/-- A session changed at one reference, in nothing but its flag. -/
theorem same_setConnected (sessions : Sessions) (ref ref' : Ref) (connected : Bool) :
    (Function.update sessions ref ((sessions ref).setConnected connected) ref').id = (sessions ref').id ∧
      (Function.update sessions ref ((sessions ref).setConnected connected) ref').willMessage =
        (sessions ref').willMessage := by
  by_cases h : ref' = ref
  · subst h
    simp [Session.setConnected]
  · simp [h]

theorem same_activate {pool pool' : SessionPool} {sessions sessions' : Sessions} {id : String}
    (h : pool.activate sessions id = some (ref, pool', sessions')) (ref' : Ref) :
    (sessions' ref').id = (sessions ref').id ∧
      (sessions' ref').willMessage = (sessions ref').willMessage := by
  unfold SessionPool.activate at h
  split at h
  · cases h
    exact same_setConnected sessions ref ref' true
  · cases h

theorem same_deactivate {pool : SessionPool} {sessions : Sessions} {id : String} (ref' : Ref) :
    ((pool.deactivate sessions id).2 ref').id = (sessions ref').id ∧
      ((pool.deactivate sessions id).2 ref').willMessage = (sessions ref').willMessage := by
  unfold SessionPool.deactivate
  split
  · exact same_setConnected sessions _ ref' false
  · exact ⟨rfl, rfl⟩

theorem same_choose (sh : Shared) (a : Admission) (ref' : Ref) :
    ((sh.choose a).1.sessions ref').id = (sh.sessions ref').id ∧
      ((sh.choose a).1.sessions ref').willMessage = (sh.sessions ref').willMessage := by
  rcases choose_cases sh a with ⟨_, pool, -, -, heq, -⟩ | ⟨ref, pool, sessions, hactivate, heq, -⟩ |
    ⟨ref, -, heq, -⟩ | ⟨-, -, heq, -⟩
  · rw [heq]
    exact ⟨rfl, rfl⟩
  · rw [heq]
    exact same_activate hactivate ref'
  · rw [heq]
    exact ⟨rfl, rfl⟩
  · rw [heq]
    exact ⟨rfl, rfl⟩

theorem same_enterPool {a : Admission} (h : sh.enterPool t a = some (sh', next)) (ref' : Ref) :
    (sh'.sessions ref').id = (sh.sessions ref').id ∧
      (sh'.sessions ref').willMessage = (sh.sessions ref').willMessage := by
  obtain ⟨-, ⟨-, rfl, -⟩ | ⟨-, rfl, -⟩⟩ := enterPool_cases h
  · exact ⟨rfl, rfl⟩
  · exact same_choose sh a ref'

theorem sessions_register (a : Admission) :
    (sh.register a).sessions = Function.update sh.sessions sh.nextRef
      ((Session.new a.sessionId a.connect.willMessage a.keepAlive sh.nextChannel).setConnected true) :=
  rfl

theorem sessions_adopt (sh : Shared) (a : Admission) (ref : Ref) : ∃ ch, (sh.adopt a ref).sessions =
    Function.update sh.sessions ref
      (((sh.sessions ref).cancelPendingWill.2.setWill a.connect.willMessage).resetControl ch) := by
  refine ⟨((sh.cancel (sh.sessions ref).cancelPendingWill.1).close
    (if (sh.sessions ref).cancelPendingWill.2.receiver then
      some (sh.sessions ref).cancelPendingWill.2.control else none)).nextChannel, ?_⟩
  simp only [adopt, setSession, newChannel, setChannel, sessions_close, sessions_cancel]

/-- Enrolling changes one session: the new one, or the will and the channel of the target. -/
theorem sessions_enroll (sh : Shared) (a : Admission) (target : Option Ref) :
    (∀ ref' ≠ target.getD sh.nextRef, (sh.enroll a target).1.sessions ref' = sh.sessions ref') ∧
      ((sh.enroll a target).1.sessions (target.getD sh.nextRef)).willMessage = a.connect.willMessage := by
  cases target with
  | none =>
      refine ⟨fun ref' hne => ?_, ?_⟩
      · simp only [enroll, sessions_register]
        exact Function.update_of_ne hne _ _
      · simp only [enroll, sessions_register, Option.getD_none, Function.update_self]
        rfl
  | some ref =>
      obtain ⟨ch, hadopt⟩ := sessions_adopt sh a ref
      refine ⟨fun ref' hne => ?_, ?_⟩
      · simp only [enroll, hadopt]
        exact Function.update_of_ne hne _ _
      · simp only [enroll, hadopt, Option.getD_some, Function.update_self]
        rfl

theorem frame_adopt (sh : Shared) (a : Admission) (ref : Ref) : sh.Frame (sh.adopt a ref) := by
  let closing := if (sh.sessions ref).cancelPendingWill.2.receiver then
    some (sh.sessions ref).cancelPendingWill.2.control else none
  have hclosed := (frame_cancel sh (sh.sessions ref).cancelPendingWill.1).trans
    (frame_close closing)
  have hchannel : ∀ sh : Shared, sh.Frame sh.newChannel := fun sh =>
    frame_of_sessions rfl rfl rfl rfl rfl
  refine (hclosed.trans (hchannel _)).trans (frame_setSession ?_ ?_)
  · rw [((hclosed.trans (hchannel _)).id ref)]
    rfl
  · rw [((hclosed.trans (hchannel _)).connected ref)]
    rfl

theorem nextRef_enroll (sh : Shared) (a : Admission) (target : Option Ref) :
    sh.nextRef ≤ (sh.enroll a target).1.nextRef ∧
      (target = none → (sh.enroll a target).1.nextRef = sh.nextRef + 1) := by
  cases target with
  | none => exact ⟨Nat.le_succ _, fun _ => rfl⟩
  | some ref => exact ⟨(frame_adopt sh a ref).nextRef.ge, fun h => by cases h⟩

theorem id_of_perform (h : sh.perform t c a = some (sh', next)) :
    sh.nextRef ≤ sh'.nextRef ∧
      ∀ ref < sh.nextRef, (sh'.sessions ref).id = (sh.sessions ref).id := by
  by_cases ha : a.changesPool
  · cases a with
    | enterPool a =>
        refine ⟨?_, fun ref _ => (same_enterPool h ref).1⟩
        obtain ⟨-, ⟨-, rfl, -⟩ | ⟨-, rfl, -⟩⟩ := enterPool_cases h
        · exact Nat.le_refl _
        · rcases choose_cases sh a with ⟨_, _, -, -, heq, -⟩ | ⟨_, _, _, -, heq, -⟩ |
            ⟨_, -, heq, -⟩ | ⟨-, -, heq, -⟩
          all_goals exact (congrArg Shared.nextRef heq).ge
    | enroll a target =>
        cases h
        refine ⟨(nextRef_enroll sh a target).1, fun ref href => ?_⟩
        cases target with
        | none => exact congrArg Session.id ((sessions_enroll sh a none).1 ref (Nat.ne_of_lt href))
        | some target => exact (frame_adopt _ a _).id ref
    | deactivate sessionId =>
        simp only [perform] at h
        split at h
        · cases h
          exact ⟨Nat.le_refl _, fun ref _ => (same_deactivate ref).1⟩
        · cases h
    | _ => cases ha
  · have hframe := frame_of_perform h (by simpa using ha)
    exact ⟨hframe.nextRef.ge, fun ref _ => hframe.id ref⟩

/-- A session changed in anything but its will. -/
theorem will_setSession {session : Session}
    (hwill : session.willMessage = (sh.sessions ref).willMessage) (ref' : Ref) :
    ((sh.setSession ref session).sessions ref').willMessage = (sh.sessions ref').willMessage := by
  by_cases h : ref' = ref
  · subst h
    simpa [setSession]
  · simp [setSession, h]

theorem will_of_perform (h : sh.perform t c a = some (sh', next)) (ha : a.changesWill = false)
    (ref' : Ref) : (sh'.sessions ref').willMessage = (sh.sessions ref').willMessage := by
  cases a with
  | takeWill | clearWill | enroll => cases ha
  | enterPool a => exact (same_enterPool h ref').2
  | deactivate sessionId =>
      simp only [perform] at h
      split at h
      · cases h
        exact (same_deactivate ref').2
      · cases h
  | disconnectOld ref a target =>
      obtain ⟨sent, hsend, heq⟩ := Option.map_eq_some_iff.mp h
      cases heq
      rw [(frame_disconnectOld hsend).2]
  | grantExpiry ref expiry =>
      simp only [perform] at h
      split at h
      · cases expiry with
        | none => cases h; rfl
        | some expiry =>
            cases h
            refine will_setSession ?_ ref'
            rfl
      · cases h
  | setPendingWill ref token =>
      simp only [perform] at h
      split at h
      · cases h
        refine (will_setSession ?_ ref').trans (by rw [sessions_cancel])
        rw [sessions_cancel]
        rfl
      · cases h
  | deliver publish sender sub =>
      obtain ⟨delivered, hdeliver, heq⟩ := Option.map_eq_some_iff.mp h
      cases heq
      exact (frame_deliver hdeliver).2 ref'
  | openSession ref | track ref packetId publish | acknowledge ref packetId =>
      simp only [perform] at h
      split at h
      · cases h
        refine will_setSession ?_ ref'
        rfl
      · cases h
  | subscribe sessionId p =>
      obtain ⟨⟨subscribed, suback⟩, hsub, heq⟩ := Option.map_eq_some_iff.mp h
      cases heq
      simp only [handleSubscribe, Option.bind_eq_bind, Option.bind_eq_some_iff] at hsub
      obtain ⟨tree, -, heq⟩ := hsub
      cases heq
      rfl
  | unsubscribe sessionId p =>
      obtain ⟨⟨unsubscribed, unsuback⟩, hunsub, heq⟩ := Option.map_eq_some_iff.mp h
      cases heq
      simp only [handleUnsubscribe, Option.bind_eq_bind, Option.bind_eq_some_iff] at hunsub
      obtain ⟨⟨tree, reasons⟩, -, heq⟩ := hunsub
      cases heq
      rfl
  | route publish sender =>
      obtain ⟨subscribers, -, heq⟩ := Option.map_eq_some_iff.mp h
      cases heq
      rfl
  | negotiate | lockPool =>
      simp only [perform] at h
      split at h
      · cases h
        rfl
      · cases h
  | lockOld | settle | acceptSession | write | shutdown | leavePool | finish =>
      cases h
      rfl

/-! ## What is left to do -/

/-- An action that can only follow one of the same session, and that ends nothing. -/
structure Follows (a x : Action) : Prop where
  connecting : x.connecting = false
  ends : x.ends = false
  session : x.session = none ∨ x.session = a.session

theorem follows_write (a : Action) (packet : Packet) : Follows a (.write packet) :=
  ⟨rfl, rfl, .inl rfl⟩

theorem follows_route (a : Action) (publish : Publish) (sender : String) :
    Follows a (.route publish sender) :=
  ⟨rfl, rfl, .inl rfl⟩

theorem follows_redelivery {order : List (UInt16 × Publish)} {x : Action}
    (hx : x ∈ redelivery ref order) : Follows (.openSession ref) x := by
  obtain ⟨⟨packetId, publish⟩, -, hx⟩ := List.mem_flatMap.mp hx
  simp only [List.mem_cons, List.not_mem_nil, or_false] at hx
  rcases hx with rfl | rfl
  · exact ⟨rfl, rfl, .inr rfl⟩
  · exact follows_write _ _

theorem follows_of_perform (h : sh.perform t c a = some (sh', next)) (ha : a.connecting = false)
    {x : Action} (hx : x ∈ next.more) : Follows a x := by
  cases a with
  | negotiate | enterPool | lockOld | disconnectOld | settle | enroll => cases ha
  | openSession ref =>
      simp only [perform] at h
      split at h
      · cases h
        rcases List.mem_append.mp hx with hx | hx
        · exact follows_redelivery hx
        · cases List.mem_singleton.mp hx
          exact ⟨rfl, rfl, .inr rfl⟩
      · cases h
  | takeWill ref =>
      simp only [perform] at h
      split at h
      · have hsnd : _ = next := congrArg Prod.snd (Option.some.inj h)
        subst hsnd
        cases hwill : (sh.sessions ref).takeWill.1 with
        | none => simp [initiateWill, hwill, Next.more] at hx
        | some will =>
            simp only [initiateWill, hwill] at hx
            split at hx
            · cases List.mem_singleton.mp hx
              exact follows_route _ _ _
            · cases List.mem_singleton.mp hx
              exact ⟨rfl, rfl, .inr rfl⟩
      · cases h
  | subscribe sessionId p =>
      obtain ⟨⟨subscribed, suback⟩, hsub, heq⟩ := Option.map_eq_some_iff.mp h
      cases heq
      cases List.mem_singleton.mp hx
      exact follows_write _ _
  | unsubscribe sessionId p =>
      obtain ⟨⟨unsubscribed, unsuback⟩, hunsub, heq⟩ := Option.map_eq_some_iff.mp h
      cases heq
      cases List.mem_singleton.mp hx
      exact follows_write _ _
  | route publish sender =>
      obtain ⟨subscribers, -, heq⟩ := Option.map_eq_some_iff.mp h
      cases heq
      have hroute : x = .lockPool ∨ (∃ sub ∈ subscribers, .deliver publish sender sub = x) ∨
          x = .leavePool := by
        simpa [Next.more] using hx
      rcases hroute with rfl | ⟨sub, -, rfl⟩ | rfl <;>
        exact ⟨rfl, rfl, .inl rfl⟩
  | grantExpiry ref expiry =>
      simp only [perform] at h
      split at h
      · cases expiry <;> cases h <;> cases hx
      · cases h
  | write | shutdown =>
      cases h
      cases hok : c.ok <;> simp [hok, Next.more] at hx
  | deliver publish sender sub =>
      obtain ⟨delivered, hdeliver, heq⟩ := Option.map_eq_some_iff.mp h
      cases heq
      cases hx
  | track | setPendingWill | clearWill | acknowledge | deactivate | lockPool =>
      simp only [perform] at h
      split at h
      · cases h
        cases hx
      · cases h
  | acceptSession | leavePool | finish =>
      cases h
      cases hx

theorem ends_of_holds {x : Action} {p : Admission × Option Ref} (h : x.holds = some p) :
    x.ends = false := by
  cases x <;> first | rfl | cases h

/-- No action puts off the end of a session or of the task. -/
theorem ends_of_perform (h : sh.perform t c a = some (sh', next)) {x : Action}
    (hx : x ∈ next.more) : x.ends = false := by
  cases ha : a.connecting with
  | false => exact (follows_of_perform h ha hx).ends
  | true =>
      cases a with
      | negotiate connect =>
          simp only [perform] at h
          split at h
          · cases h
            cases List.mem_singleton.mp hx
            rfl
          · cases h
      | enterPool a =>
          obtain ⟨-, ⟨-, -, rfl⟩ | ⟨-, -, rfl⟩⟩ := enterPool_cases h
          · simp only [Next.more, List.mem_cons, List.not_mem_nil, or_false] at hx
            rcases hx with rfl | rfl <;> rfl
          · cases List.mem_singleton.mp hx
            rcases choose_cases sh a with ⟨_, _, -, -, -, hholds⟩ | ⟨_, _, _, -, -, hholds⟩ |
              ⟨_, -, -, hholds⟩ | ⟨-, -, -, hholds⟩
            all_goals exact ends_of_holds hholds
      | disconnectOld ref a target =>
          obtain ⟨sent, -, heq⟩ := Option.map_eq_some_iff.mp h
          cases heq
          cases List.mem_singleton.mp hx
          rfl
      | lockOld | settle =>
          cases h
          cases List.mem_singleton.mp hx
          rfl
      | enroll a target =>
          have hmore : ∃ ref ack, (sh.enroll a target).2 =
              .go [.grantExpiry ref a.sessionExpiry, .write (.connAck ack), .openSession ref] := by
            cases target <;> exact ⟨_, _, rfl⟩
          obtain ⟨ref, ack, hmore⟩ := hmore
          have hnext : (sh.enroll a target).2 = next := congrArg Prod.snd (Option.some.inj h)
          rw [← hnext, hmore] at hx
          simp only [Next.more, List.mem_cons, List.not_mem_nil, or_false] at hx
          rcases hx with rfl | rfl | rfl <;> rfl
      | _ => cases ha

/-- What may come of an action but more of them. -/
theorem next_of_perform (h : sh.perform t c a = some (sh', next)) :
    (∃ more, next = .go more) ∨
      (∃ ref keepAlive control more, a = .openSession ref ∧ next = .opened keepAlive control more) ∨
      (∃ ref, a = .acceptSession ref ∧ next = .accepted ref) ∨
      ∃ result, next = .returned result ∧ (a = .finish result ∨
        c.ok = false ∧ ((∃ packet, a = .write packet) ∨ a = .shutdown)) := by
  cases a with
  | openSession ref =>
      simp only [perform] at h
      split at h
      · cases h
        exact .inr (.inl ⟨ref, _, _, _, rfl, rfl⟩)
      · cases h
  | acceptSession ref =>
      cases h
      exact .inr (.inr (.inl ⟨ref, rfl, rfl⟩))
  | write packet =>
      cases h
      cases hok : c.ok with
      | true => exact .inl ⟨[], rfl⟩
      | false => exact .inr (.inr (.inr ⟨_, rfl, .inr ⟨rfl, .inl ⟨packet, rfl⟩⟩⟩))
  | shutdown =>
      cases h
      cases hok : c.ok with
      | true => exact .inl ⟨[], rfl⟩
      | false => exact .inr (.inr (.inr ⟨_, rfl, .inr ⟨rfl, .inr rfl⟩⟩))
  | finish result =>
      cases h
      exact .inr (.inr (.inr ⟨result, rfl, .inl rfl⟩))
  | enterPool a =>
      obtain ⟨-, ⟨-, -, rfl⟩ | ⟨-, -, rfl⟩⟩ := enterPool_cases h
      · exact .inl ⟨_, rfl⟩
      · exact .inl ⟨_, rfl⟩
  | enroll a target =>
      cases h
      cases target <;> exact .inl ⟨_, rfl⟩
  | takeWill ref =>
      simp only [perform] at h
      split at h
      · have hsnd : _ = next := congrArg Prod.snd (Option.some.inj h)
        rw [← hsnd]
        cases hwill : (sh.sessions ref).takeWill.1 with
        | none => exact .inl ⟨[], rfl⟩
        | some will =>
            simp only [initiateWill]
            split <;> exact .inl ⟨_, rfl⟩
      · cases h
  | grantExpiry ref expiry =>
      simp only [perform] at h
      split at h
      · cases expiry <;> cases h <;> exact .inl ⟨_, rfl⟩
      · cases h
  | negotiate | track | setPendingWill | clearWill | acknowledge | deactivate | lockPool =>
      simp only [perform] at h
      split at h
      · cases h
        exact .inl ⟨_, rfl⟩
      · cases h
  | disconnectOld | subscribe | unsubscribe | route | deliver =>
      obtain ⟨_, -, heq⟩ := Option.map_eq_some_iff.mp h
      cases heq
      exact .inl ⟨_, rfl⟩
  | lockOld | settle | leavePool =>
      cases h
      exact .inl ⟨_, rfl⟩

theorem accepted_of_perform (h : sh.perform t c a = some (sh', .accepted ref)) :
    a = .acceptSession ref := by
  rcases next_of_perform h with ⟨_, heq⟩ | ⟨_, _, _, _, -, heq⟩ | ⟨ref, ha, heq⟩ | ⟨_, heq, -⟩
  · cases heq
  · cases heq
  · cases heq
    exact ha
  · cases heq

/-- What returns: the last action, and a write or a shutdown that fails. -/
theorem returned_of_perform {result : Except BrokerError Unit}
    (h : sh.perform t c a = some (sh', .returned result)) :
    a = .finish result ∨ c.ok = false ∧ ((∃ packet, a = .write packet) ∨ a = .shutdown) := by
  rcases next_of_perform h with ⟨_, heq⟩ | ⟨_, _, _, _, -, heq⟩ | ⟨_, -, heq⟩ | ⟨_, heq, ha⟩
  · cases heq
  · cases heq
  · cases heq
  · cases heq
    exact ha

theorem routing_of_perform (h : sh.perform t c a = some (sh', next)) (ha : a.routing = true) :
    ∃ more, next = .go more ∧ ∀ x ∈ more, x.routing = true := by
  cases a with
  | route publish sender =>
      obtain ⟨subscribers, -, heq⟩ := Option.map_eq_some_iff.mp h
      cases heq
      refine ⟨_, rfl, fun x hx => ?_⟩
      have hroute : x = .lockPool ∨ (∃ sub ∈ subscribers, .deliver publish sender sub = x) ∨
          x = .leavePool := by
        simpa using hx
      rcases hroute with rfl | ⟨sub, -, rfl⟩ | rfl <;> rfl
  | lockPool =>
      simp only [perform] at h
      split at h
      · cases h
        exact ⟨[], rfl, fun x hx => by cases hx⟩
      · cases h
  | deliver publish sender sub =>
      obtain ⟨delivered, -, heq⟩ := Option.map_eq_some_iff.mp h
      cases heq
      exact ⟨[], rfl, fun x hx => by cases hx⟩
  | leavePool =>
      cases h
      exact ⟨[], rfl, fun x hx => by cases hx⟩
  | _ => cases ha

theorem accept_of_open (h : sh.perform t c (.openSession ref) = some (sh', next)) :
    .acceptSession ref ∈ next.more := by
  simp only [perform] at h
  split at h
  · cases h
    exact List.mem_append_right _ (List.mem_singleton_self _)
  · cases h

/-! ## Events -/

variable {task : Task} {e : Event} {todo : List Action}

theorem frame_of_handle (h : sh.handle task e = some (sh', todo)) :
    sh.Frame sh' ∧ sh'.sessions = sh.sessions := by
  cases e with
  | control =>
      simp only [handle, Option.bind_eq_bind, Option.bind_eq_some_iff] at h
      obtain ⟨ch, -, h⟩ := h
      split at h
      · cases h
      · cases h
        exact ⟨frame_of_sessions rfl rfl rfl rfl rfl, rfl⟩
  | keepAliveExpired =>
      simp only [handle] at h
      split at h <;> cases h <;> exact ⟨.refl _, rfl⟩
  | packet p =>
      simp only [handle] at h
      split at h
      · split at h
        · obtain ⟨todo', -, heq⟩ := Option.map_eq_some_iff.mp h
          cases heq
          exact ⟨.refl _, rfl⟩
        · cases h
          exact ⟨.refl _, rfl⟩
      · cases h
        exact ⟨.refl _, rfl⟩
  | endOfStream | readError =>
      cases h
      exact ⟨.refl _, rfl⟩

/-- What an event of a task can leave to do. -/
inductive Arises (sh : Shared) (task : Task) : Event → List Action → Prop
  /-- A message, with the part of a Disconnect that ends the session. -/
  | control (msg : SessionControl) (hmsg : sh.nextControl task = some msg) :
    Arises sh task .control (sh.handleControl task.clientSession msg)
  | timeout (ref : Ref) (href : task.clientSession = some ref) :
    Arises sh task .keepAliveExpired (sh.ending ref)
  | idle (hnone : task.clientSession = none) :
    Arises sh task .keepAliveExpired [.shutdown, .finish (.ok ())]
  | packet (p : Packet) (ref : Ref) (todo : List Action) (hconnected : task.connected = true)
    (href : task.clientSession = some ref) (htodo : sh.handlePacket ref p = some todo) :
    Arises sh task (.packet p) todo
  | ignored (p : Packet) (hconnected : task.connected = true) (hnone : task.clientSession = none) :
    Arises sh task (.packet p) []
  | preConnect (p : Packet) (hconnected : task.connected = false) :
    Arises sh task (.packet p) (sh.handlePreConnect p)
  | endOfStream :
    Arises sh task .endOfStream ((task.clientSession.map sh.ending).getD [] ++ [.finish (.ok ())])
  | readError :
    Arises sh task .readError
      ((task.clientSession.map sh.ending).getD [] ++ [.finish (.error .stream)])

theorem arises_of_handle (h : sh.handle task e = some (sh', todo)) : Arises sh task e todo := by
  cases e with
  | control =>
      simp only [handle, Option.bind_eq_bind, Option.bind_eq_some_iff] at h
      obtain ⟨ch, hch, h⟩ := h
      split at h
      · cases h
      · rename_i msg queue hqueue
        cases h
        exact .control msg (by simp [nextControl, hch, hqueue])
  | keepAliveExpired =>
      simp only [handle] at h
      split at h
      · rename_i ref href
        cases h
        exact .timeout ref href
      · rename_i hnone
        cases h
        exact .idle hnone
  | packet p =>
      simp only [handle] at h
      split at h
      · rename_i hconnected
        split at h
        · rename_i ref href
          obtain ⟨todo', htodo, heq⟩ := Option.map_eq_some_iff.mp h
          cases heq
          exact .packet p ref todo hconnected href htodo
        · rename_i hnone
          cases h
          exact .ignored p hconnected hnone
      · rename_i hconnected
        cases h
        exact .preConnect p (by simpa using hconnected)
  | endOfStream =>
      cases h
      exact .endOfStream
  | readError =>
      cases h
      exact .readError

/-- What can be done for a packet of an accepted connection. -/
theorem handlePacket_cases {p : Packet} (h : sh.handlePacket ref p = some todo) :
    (∀ x ∈ todo, x.connecting = false ∧ x.ends = false ∧ (x.session = none ∨ x.session = some ref)) ∨
      (∃ d, p = .disconnect d ∧ d.reason = .success ∧
        todo = [.clearWill ref, .deactivate (sh.sessions ref).id]) ∨
      (∃ d, p = .disconnect d ∧ d.reason ≠ .success ∧ todo = sh.ending ref) ∨
      ∃ publish result, p = .publish publish ∧ publish.qos = .ok .atLeastOnce ∧
        publish.packetId = none ∧ todo = [.write (.disconnect (.new .malformedPacket)), .finish result] := by
  cases p with
  | disconnect d =>
      simp only [handlePacket] at h
      split at h
      · rename_i hreason
        cases h
        exact .inr (.inl ⟨d, rfl, hreason, rfl⟩)
      · rename_i hreason
        cases h
        exact .inr (.inr (.inl ⟨d, rfl, hreason, rfl⟩))
  | publish p =>
      simp only [handlePacket, handlePublish] at h
      split at h
      · rename_i hqos
        split at h
        · cases h
          left
          simp [Action.connecting, Action.ends, Action.session]
        · rename_i hnone
          cases h
          exact .inr (.inr (.inr ⟨p, _, rfl, hqos, hnone, rfl⟩))
      · cases h
        left
        simp [Action.connecting, Action.ends, Action.session]
      · cases h
  | _ =>
      cases h
      left
      simp [Action.connecting, Action.ends, Action.session]

end

end Shared

end Broker
end Vaux
