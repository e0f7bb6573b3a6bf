import Vaux.Broker.CircularWait
import Vaux.Broker.Registry

/-!
# What is placed in the channels

The machine of this module is the broker with a history of its traffic: each PUBLISH that a
connection sends has a number, each packet identifier that a session gives out has a place
among all of them, and each channel has a list of the publishes that were ever placed in it.
What waits in a channel is the end of its list.
-/

namespace Vaux
namespace Broker

open Wire Mqtt Machine

/-- A Deliver message in a channel. -/
structure Placed where
  /-- The publisher and the number of its publish; a will has none. -/
  source : Option (TaskId × Nat)
  message : Publish
  /-- The place of its packet identifier among all that were assigned. -/
  serial : Option Nat

structure Traffic where
  state : State
  /-- The subscriptions as the packets of the clients have made them. -/
  table : Subscriptions
  /-- How many PUBLISH packets a connection has sent. -/
  sent : TaskId → Nat
  /-- The number of the one that it is handling. -/
  current : TaskId → Option Nat
  /-- The client that a channel was made for. -/
  client : ChannelId → Option String
  /-- The packet identifiers that the sessions have given out. -/
  assigned : List UInt16
  placed : ChannelId → List Placed

def Event.isPublish : Event → Bool
  | .packet (.publish _) => true
  | _ => false

def SessionControl.publish? : SessionControl → Option Publish
  | .deliver publish => some publish
  | .disconnect _ => none

namespace Shared

/-- The session that gets a publish, the clone for it and the session behind it. -/
def handsOver (sh : Shared) (publish : Publish) (sender : String) (sub : Subscriber) :
    Option (Ref × Publish × Session) :=
  if sub.noLocal ∧ sub.sessionId = sender then none
  else
    (sh.pool.getActive sub.sessionId).bind fun ref =>
      match handOver publish sub.qos (sh.sessions ref) with
      | .ok (out, target) => some (ref, out, target)
      | _ => none

/-- A channel takes a message. -/
def roomy (sh : Shared) (ch : ChannelId) : Bool :=
  !(sh.channels ch).closed && (sh.channels ch).queue.length < (sh.channels ch).capacity

/-- The publishes that wait in a channel. -/
def publishes (sh : Shared) (ch : ChannelId) : List Publish :=
  (sh.channels ch).queue.filterMap SessionControl.publish?

end Shared

namespace Traffic

def start (config : Config) : Traffic where
  state := .start config
  table := ∅
  sent := fun _ => 0
  current := fun _ => none
  client := fun _ => none
  assigned := []
  placed := fun _ => []

def recordEvent (w : Traffic) (t : TaskId) (e : Event) : Traffic :=
  if e.isPublish then
    { w with
      sent := Function.update w.sent t (w.sent t + 1)
      current := Function.update w.current t (some (w.sent t)) }
  else { w with current := Function.update w.current t none }

/-- The entry for a publish that the task `t` hands over. -/
def entry (w : Traffic) (t : TaskId) (out : Publish) : Placed where
  source := (w.current t).map (t, ·)
  message := out
  serial := if out.qos ≠ .ok .atMostOnce then some w.assigned.length else none

/-- The task `t` hands `out` over to the session `before`, which becomes `target`. -/
def recordHandOver (w : Traffic) (t : TaskId) (out : Publish) (before target : Session) : Traffic :=
  { w with
    assigned :=
      if out.qos ≠ .ok .atMostOnce then w.assigned ++ [before.nextPacketId.1] else w.assigned
    placed :=
      if w.state.shared.roomy target.control then
        Function.update w.placed target.control (w.placed target.control ++ [w.entry t out])
      else w.placed }

def recordAction (w : Traffic) (t : TaskId) : Action → Traffic
  | .deliver publish sender sub =>
    match w.state.shared.handsOver publish sender sub with
    | some (ref, out, target) => w.recordHandOver t out (w.state.shared.sessions ref) target
    | none => w
  | .enroll a _ =>
    { w with client := Function.update w.client w.state.shared.nextChannel (some a.sessionId) }
  | _ => w

def record (w : Traffic) : Label → Traffic
  | .event n e => w.recordEvent (.connection n) e
  | .act t _ =>
    match (w.state.tasks t).todo with
    | a :: _ => w.recordAction t a
    | [] => w
  | _ => w

def step (w : Traffic) (l : Label) : Option Traffic :=
  (w.state.step l).map fun state =>
    { w.record l with state, table := (w.table.performAll (w.state.calls l)).1 }

end Traffic

/-! ## Channels -/

namespace Shared

section

variable {sh sh' : Shared} {t : TaskId} {c : Choice} {a : Action} {next : Next}

theorem publishes_setChannel (sh : Shared) (ch ch' : ChannelId) (channel : Channel) :
    (sh.setChannel ch channel).publishes ch' =
      if ch' = ch then channel.queue.filterMap SessionControl.publish? else sh.publishes ch' := by
  unfold publishes setChannel
  by_cases h : ch' = ch
  · subst h
    rw [if_pos rfl]
    simp only [Function.update_self]
  · rw [if_neg h]
    simp only [Function.update_of_ne h]

theorem publishes_push (sh : Shared) (ch ch' : ChannelId) (msg : SessionControl) :
    (sh.push ch msg).publishes ch' =
      if ch' = ch then sh.publishes ch ++ msg.publish?.toList else sh.publishes ch' := by
  rw [push, publishes_setChannel, List.filterMap_append]
  cases msg <;> rfl

theorem publishes_close (sh : Shared) (ch : Option ChannelId) (ch' : ChannelId) :
    (sh.close ch).publishes ch' = sh.publishes ch' := by
  cases ch with
  | none => rfl
  | some ch =>
      rw [close, publishes_setChannel]
      split
      · rename_i heq
        rw [heq]
        rfl
      · rfl

theorem publishes_cancel (sh : Shared) (token : Option Token) (ch : ChannelId) :
    (sh.cancel token).publishes ch = sh.publishes ch := by
  cases token <;> rfl

theorem nextChannel_cancel (sh : Shared) (token : Option Token) :
    (sh.cancel token).nextChannel = sh.nextChannel := by
  cases token <;> rfl

theorem nextChannel_close (sh : Shared) (ch : Option ChannelId) :
    (sh.close ch).nextChannel = sh.nextChannel := by
  cases ch <;> rfl

/-- An action leaves the sessions their channels and the channels their publishes. -/
structure Keeps (sh sh' : Shared) : Prop where
  nextChannel : sh'.nextChannel = sh.nextChannel
  nextRef : sh'.nextRef = sh.nextRef
  control : ∀ ref, (sh'.sessions ref).control = (sh.sessions ref).control
  publishes : ∀ ch, sh'.publishes ch = sh.publishes ch

theorem next_of_performed (h : Performed sh t c a sh' next)
    (henroll : ∀ x target, a ≠ .enroll x target) :
    sh'.nextChannel = sh.nextChannel ∧ sh'.nextRef = sh.nextRef := by
  cases h with
  | register | adopt => exact absurd rfl (henroll _ _)
  | enter x _ _ =>
      rcases choose_cases sh x with ⟨_, pool, -, -, heq, -⟩ | ⟨ref, pool, sessions, -, heq, -⟩ |
        ⟨ref, -, heq, -⟩ | ⟨-, -, heq, -⟩
      all_goals
        rw [heq]
        exact ⟨rfl, rfl⟩
  | deliver publish sender sub _ hdeliver =>
      cases delivered_of_deliver hdeliver <;> exact ⟨rfl, rfl⟩
  | setPendingWill ref token _ =>
      cases (sh.sessions ref).pendingWill <;> exact ⟨rfl, rfl⟩
  | _ => exact ⟨rfl, rfl⟩

/-- The channels behind an action that neither delivers nor enrolls. -/
theorem keeps_of_performed (h : Performed sh t c a sh' next) (hdelivers : a.delivers = false)
    (henroll : ∀ x target, a ≠ .enroll x target) : sh.Keeps sh' := by
  cases hholds : a.holds with
  | none =>
      obtain ⟨hchannels, hcontrol⟩ := channels_of_performed h hholds hdelivers
      obtain ⟨hchannel, href⟩ := next_of_performed h henroll
      exact ⟨hchannel, href, hcontrol, fun ch => by rw [publishes, hchannels]; rfl⟩
  | some p =>
      cases h with
      | lockOld ref x target => exact ⟨rfl, rfl, fun _ => rfl, fun _ => rfl⟩
      | oldClosed ref x target _ => exact ⟨rfl, rfl, fun _ => rfl, fun _ => rfl⟩
      | oldSent ref x target _ _ =>
          refine ⟨rfl, rfl, fun _ => rfl, fun ch => ?_⟩
          have hpush := sh.publishes_push (sh.sessions ref).control ch (.disconnect .sessionTakeOver)
          refine Eq.trans hpush ?_
          split
          · rename_i heq
            rw [heq]
            exact List.append_nil _
          · rfl
      | settle x target => exact ⟨rfl, rfl, fun _ => rfl, fun _ => rfl⟩
      | register | adopt => exact absurd rfl (henroll _ _)
      | _ => cases hholds

/-- A connection that is accepted gets a new channel for its session. -/
structure Enrolled (sh sh' : Shared) (target : Option Ref) : Prop where
  nextChannel : sh'.nextChannel = sh.nextChannel + 1
  nextRef : ∀ ref < sh'.nextRef, ref < sh.nextRef ∨ ref = target.getD sh.nextRef
  control : (sh'.sessions (target.getD sh.nextRef)).control = sh.nextChannel
  sessions : ∀ ref, ref ≠ target.getD sh.nextRef → sh'.sessions ref = sh.sessions ref
  empty : sh'.publishes sh.nextChannel = []
  publishes : ∀ ch, ch ≠ sh.nextChannel → sh'.publishes ch = sh.publishes ch

theorem publishes_newChannel (sh : Shared) (ch : ChannelId) :
    sh.newChannel.publishes ch = if ch = sh.nextChannel then [] else sh.publishes ch :=
  sh.publishes_setChannel sh.nextChannel ch _

theorem enrolled_of_performed {x : Admission} {target : Option Ref}
    (h : Performed sh t c (.enroll x target) sh' next) : sh.Enrolled sh' target := by
  cases h with
  | register =>
      refine ⟨rfl, fun ref href => ?_, ?_, fun ref hne => ?_, ?_, fun ch hne => ?_⟩
      · exact (Nat.lt_or_eq_of_le (Nat.le_of_lt_succ href)).imp_right id
      · show ((sh.register x).sessions sh.nextRef).control = sh.nextChannel
        rw [sessions_register, Function.update_self]
        rfl
      · show (sh.register x).sessions ref = sh.sessions ref
        rw [sessions_register]
        exact Function.update_of_ne hne _ _
      · exact (sh.publishes_newChannel _).trans (if_pos rfl)
      · exact (sh.publishes_newChannel _).trans (if_neg hne)
  | adopt _ ref =>
      -- what is done to the old channel and the pending will does not matter here
      generalize hbase : (sh.cancel (sh.sessions ref).cancelPendingWill.1).close
        (if (sh.sessions ref).cancelPendingWill.2.receiver then
          some (sh.sessions ref).cancelPendingWill.2.control else none) = base
      have hadopt : sh.adopt x ref = base.newChannel.setSession ref
          (((sh.sessions ref).cancelPendingWill.2.setWill x.connect.willMessage).resetControl
            base.nextChannel) := by
        rw [← hbase]
        rfl
      have hsame : base.nextChannel = sh.nextChannel ∧ base.nextRef = sh.nextRef ∧
          base.sessions = sh.sessions ∧ ∀ ch, base.publishes ch = sh.publishes ch := by
        rw [← hbase]
        refine ⟨?_, ?_, ?_, fun ch => ?_⟩
        · rw [nextChannel_close, nextChannel_cancel]
        · exact ((frame_cancel sh _).trans (frame_close _)).nextRef
        · rw [sessions_close, sessions_cancel]
        · rw [publishes_close, publishes_cancel]
      obtain ⟨hchannel, href, hsessions, hpublishes⟩ := hsame
      refine ⟨?_, fun ref' href' => ?_, ?_, fun ref' hne => ?_, ?_, fun ch hne => ?_⟩
      · show (sh.adopt x ref).nextChannel = _
        rw [hadopt]
        exact congrArg (· + 1) hchannel
      · left
        rw [← href]
        have hnext : (sh.adopt x ref).nextRef = base.nextRef := by
          rw [hadopt]
          rfl
        exact hnext ▸ href'
      · show ((sh.adopt x ref).sessions ref).control = _
        rw [hadopt]
        simp only [setSession, Function.update_self]
        exact hchannel
      · show (sh.adopt x ref).sessions ref' = _
        rw [hadopt]
        exact (Function.update_of_ne hne _ _).trans (congrFun hsessions ref')
      · show (sh.adopt x ref).publishes _ = _
        rw [hadopt]
        exact (base.publishes_newChannel _).trans (if_pos hchannel.symm)
      · show (sh.adopt x ref).publishes _ = _
        rw [hadopt]
        refine (base.publishes_newChannel _).trans ?_
        rw [hchannel, if_neg hne, hpublishes]

/-! ## Deliveries -/

/-- What a delivery does, as the session takes the publish or not. -/
theorem deliver_cases {publish : Publish} {sender : String} {sub : Subscriber}
    (h : sh.deliver publish sender sub = some sh') :
    sh.handsOver publish sender sub = none ∧ sh' = sh ∨
      ∃ ref out target, sh.handsOver publish sender sub = some (ref, out, target) ∧
        sh.pool.getActive sub.sessionId = some ref ∧
        handOver publish sub.qos (sh.sessions ref) = .ok (out, target) ∧
        sh' = if sh.roomy target.control then
            (sh.setSession ref target).push target.control (.deliver out)
          else sh.setSession ref target := by
  unfold deliver at h
  unfold handsOver
  split at h
  · rename_i hown
    rw [if_pos hown]
    cases h
    exact .inl ⟨rfl, rfl⟩
  · rename_i hown
    rw [if_neg hown]
    cases hactive : sh.pool.getActive sub.sessionId with
    | none =>
        simp only [hactive] at h
        cases h
        exact .inl ⟨rfl, rfl⟩
    | some ref =>
        simp only [hactive] at h
        cases hover : handOver publish sub.qos (sh.sessions ref) with
        | ok r =>
            obtain ⟨out, target⟩ := r
            right
            refine ⟨ref, out, target, by simp only [Option.bind_some, hover], rfl, hover, ?_⟩
            simp only [hover, trySend, setSession] at h
            unfold roomy
            by_cases hclosed : (sh.channels target.control).closed = true
            · simp only [hclosed] at h ⊢
              cases h
              rfl
            · by_cases hroom :
                  (sh.channels target.control).queue.length < (sh.channels target.control).capacity
              · simp only [hclosed, hroom] at h ⊢
                cases h
                rfl
              · simp only [hclosed, hroom] at h ⊢
                cases h
                rfl
        | err e =>
            simp only [hover] at h
            cases h
        | panic =>
            simp only [hover] at h
            cases h

end

end Shared

/-! ## The lists of the channels -/

namespace Traffic

/-- The list of a channel ends with what waits in it, and an identifier of a message is the
one that was assigned at its place. -/
structure Filed (w : Traffic) : Prop where
  fresh : ∀ ch, w.state.shared.nextChannel ≤ ch → w.placed ch = [] ∧ w.client ch = none
  owner : ∀ ref < w.state.shared.nextRef,
    w.client (w.state.shared.sessions ref).control = some (w.state.shared.sessions ref).id
  queue : ∀ ch < w.state.shared.nextChannel, ∃ received,
    (w.placed ch).map (·.message) = received ++ w.state.shared.publishes ch
  serial : ∀ ch, ((w.placed ch).filterMap (·.serial)).Pairwise (· < ·)
  given : ∀ ch, ∀ e ∈ w.placed ch, ∀ k ∈ e.serial, ∃ id, w.assigned[k]? = some id ∧
    e.message.packetId = some id

theorem filed_start (config : Config) : (Traffic.start config).Filed := by
  refine ⟨fun _ _ => ⟨rfl, rfl⟩, fun ref h => absurd h (Nat.not_lt_zero ref),
    fun ch h => absurd h (Nat.not_lt_zero ch), fun _ => List.Pairwise.nil, fun ch e he => ?_⟩
  cases he

section

variable {w w' : Traffic} {t : TaskId} {c : Choice} {l : Label} {s' : State} {a : Action}
  {rest : List Action} {sh : Shared} {next : Next}

theorem step_eq_some :
    w.step l = some w' ↔ ∃ state, w.state.step l = some state ∧
      w' = { w.record l with state, table := (w.table.performAll (w.state.calls l)).1 } := by
  rw [step, Option.map_eq_some_iff]
  exact exists_congr fun state => and_congr_right fun _ => eq_comm

theorem state_of_step (hstep : w.step l = some w') : w.state.step l = some w'.state := by
  obtain ⟨state, hstate, rfl⟩ := step_eq_some.mp hstep
  exact hstate

theorem table_of_step (hstep : w.step l = some w') :
    w'.table = (w.table.performAll (w.state.calls l)).1 := by
  obtain ⟨state, hstate, rfl⟩ := step_eq_some.mp hstep
  rfl

/-- A session that is known has a channel that is known. -/
theorem Filed.control_lt (h : w.Filed) {ref : Ref} (href : ref < w.state.shared.nextRef) :
    (w.state.shared.sessions ref).control < w.state.shared.nextChannel := by
  by_contra hge
  have hclient := (h.fresh _ (Nat.le_of_not_lt hge)).2
  rw [h.owner ref href] at hclient
  cases hclient

/-- Steps that place nothing. -/
theorem Filed.keep (h : w.Filed) (hchannel : w'.state.shared.nextChannel = w.state.shared.nextChannel)
    (href : w'.state.shared.nextRef = w.state.shared.nextRef)
    (hcontrol : ∀ ref, (w'.state.shared.sessions ref).control =
      (w.state.shared.sessions ref).control)
    (hid : ∀ ref < w.state.shared.nextRef, (w'.state.shared.sessions ref).id =
      (w.state.shared.sessions ref).id)
    (hpublishes : ∀ ch, ∃ received, w.state.shared.publishes ch =
      received ++ w'.state.shared.publishes ch)
    (hclient : w'.client = w.client) (hassigned : w'.assigned = w.assigned)
    (hplaced : w'.placed = w.placed) : w'.Filed where
  fresh := by
    rw [hchannel, hclient, hplaced]
    exact h.fresh
  owner ref hlt := by
    rw [href] at hlt
    rw [hclient, hcontrol, hid ref hlt]
    exact h.owner ref hlt
  queue ch hlt := by
    rw [hchannel] at hlt
    obtain ⟨received, heq⟩ := h.queue ch hlt
    obtain ⟨more, hmore⟩ := hpublishes ch
    exact ⟨received ++ more, by rw [hplaced, heq, hmore, List.append_assoc]⟩
  serial := by
    rw [hplaced]
    exact h.serial
  given := by
    rw [hplaced, hassigned]
    exact h.given

theorem recordEvent_same (w : Traffic) (t : TaskId) (e : Event) :
    (w.recordEvent t e).client = w.client ∧ (w.recordEvent t e).assigned = w.assigned ∧
      (w.recordEvent t e).placed = w.placed := by
  unfold recordEvent
  split <;> exact ⟨rfl, rfl, rfl⟩

theorem Filed.event (h : w.Filed) {n : Nat} {e : Event} {todo : List Action}
    (hhandled : Handled w.state (.connection n) e s' todo) (hstate : w'.state = s')
    (hclient : w'.client = w.client) (hassigned : w'.assigned = w.assigned)
    (hplaced : w'.placed = w.placed) : w'.Filed := by
  subst hstate
  rcases Shared.handle_shared hhandled.handle with heq | ⟨ch, msg, queue, -, -, hqueue, heq⟩
  · refine h.keep ?_ ?_ ?_ ?_ (fun ch => ⟨[], ?_⟩) hclient hassigned hplaced
    all_goals rw [heq]
    · exact fun _ => rfl
    · exact fun _ _ => rfl
    · rfl
  · refine h.keep ?_ ?_ ?_ ?_ (fun ch' => ?_) hclient hassigned hplaced
    all_goals rw [heq]
    · rfl
    · rfl
    · exact fun _ => rfl
    · exact fun _ _ => rfl
    · -- the message that is taken was the first to wait
      refine ⟨if ch' = ch then msg.publish?.toList else [], ?_⟩
      rw [Shared.publishes_setChannel]
      by_cases hne : ch' = ch
      · subst hne
        rw [if_pos rfl, if_pos rfl, Shared.publishes, hqueue, List.filterMap_cons]
        cases msg <;> rfl
      · rw [if_neg hne, if_neg hne]
        rfl

theorem shared_afterNext (hacted : Acted w.state t c s' a rest sh next) :
    s'.shared.nextChannel = sh.nextChannel ∧ s'.shared.nextRef = sh.nextRef ∧
      s'.shared.sessions = sh.sessions ∧ ∀ ch, s'.shared.publishes ch = sh.publishes ch := by
  rw [hacted.shared]
  cases next with
  | returned result =>
      exact ⟨sh.nextChannel_close _, (Shared.frame_close _).nextRef, Shared.sessions_close _,
        sh.publishes_close _⟩
  | _ => exact ⟨rfl, rfl, rfl, fun _ => rfl⟩

theorem Filed.act_plain (h : w.Filed) (hacted : Acted w.state t c s' a rest sh next)
    (hdelivers : a.delivers = false) (henroll : ∀ x target, a ≠ .enroll x target)
    (hstate : w'.state = s') (hclient : w'.client = w.client) (hassigned : w'.assigned = w.assigned)
    (hplaced : w'.placed = w.placed) : w'.Filed := by
  subst hstate
  obtain ⟨hchannel, href, hsessions, hpublishes⟩ := shared_afterNext hacted
  have hkeeps := Shared.keeps_of_performed hacted.performed hdelivers henroll
  have hid := (Shared.id_of_perform hacted.perform).2
  refine h.keep (hchannel.trans hkeeps.nextChannel) (href.trans hkeeps.nextRef) ?_ ?_ (fun ch => ?_)
    hclient hassigned hplaced
  · rw [hsessions]
    exact hkeeps.control
  · rw [hsessions]
    exact hid
  · exact ⟨[], by rw [hpublishes, hkeeps.publishes]; rfl⟩

/-- A new channel is that of the client that is accepted. -/
theorem Filed.act_enroll (h : w.Filed) (binv : Broker.Inv s') {x : Admission} {target : Option Ref}
    (hacted : Acted w.state t c s' (.enroll x target) rest sh next) (hstate : w'.state = s')
    (hclient : w'.client = Function.update w.client w.state.shared.nextChannel (some x.sessionId))
    (hassigned : w'.assigned = w.assigned) (hplaced : w'.placed = w.placed) : w'.Filed := by
  subst hstate
  obtain ⟨hchannel, href, hsessions, hpublishes⟩ := shared_afterNext hacted
  have henrolled := Shared.enrolled_of_performed hacted.performed
  have hid : (w'.state.shared.sessions (target.getD w.state.shared.nextRef)).id = x.sessionId := by
    have haccepted : w'.state.history.accepted t =
        some { sessionId := x.sessionId, session := target.getD w.state.shared.nextRef,
               will := x.connect.willMessage } := by
      rw [hacted.history, accepted_recordNext]
      exact Function.update_self ..
    exact ((binv.task t).accepted _ haccepted).2
  rw [henrolled.nextChannel] at hchannel
  refine ⟨fun ch hch => ?_, fun ref hlt => ?_, fun ch hch => ?_, by rw [hplaced]; exact h.serial,
    by rw [hplaced, hassigned]; exact h.given⟩
  · rw [hchannel] at hch
    obtain ⟨hplaced', hclient'⟩ := h.fresh ch (Nat.le_of_succ_le hch)
    rw [hplaced, hclient, Function.update_of_ne (Nat.ne_of_gt hch)]
    exact ⟨hplaced', hclient'⟩
  · rw [href] at hlt
    rw [hclient]
    by_cases hne : ref = target.getD w.state.shared.nextRef
    · subst hne
      rw [hid, hsessions, henrolled.control, Function.update_self]
    · have hold := (henrolled.nextRef ref hlt).resolve_right hne
      rw [hsessions, henrolled.sessions ref hne,
        Function.update_of_ne (Nat.ne_of_lt (h.control_lt hold))]
      exact h.owner ref hold
  · rw [hchannel] at hch
    rw [hpublishes, hplaced]
    by_cases hne : ch = w.state.shared.nextChannel
    · subst hne
      rw [henrolled.empty, (h.fresh _ (Nat.le_refl _)).1]
      exact ⟨[], rfl⟩
    · rw [henrolled.publishes ch hne]
      exact h.queue ch (Nat.lt_of_le_of_ne (Nat.le_of_lt_succ hch) hne)

/-- Above QoS 0 the message has the identifier that the session has given out. -/
theorem packetId_of_handOver {publish out : Publish} {qos : QoSLevel} {before target : Session}
    (h : handOver publish qos before = .ok (out, target)) :
    target.control = before.control ∧ target.id = before.id ∧
      (out.qos ≠ .ok .atMostOnce → out.packetId = some before.nextPacketId.1) := by
  unfold handOver at h
  cases hqos : publish.qos with
  | ok q =>
      rw [hqos, Outcome.bind_ok] at h
      simp only at h
      have hset : (publish.setQos (grantedQos q qos)).qos = .ok (grantedQos q qos) :=
        qos_setQos _ _
      split at h
      · rename_i habove
        cases h
        refine ⟨rfl, rfl, fun _ => ?_⟩
        rw [withPacketId_eq hset habove]
      · rename_i hzero
        cases h
        refine ⟨rfl, rfl, fun habove => absurd ?_ habove⟩
        rw [hset, not_not.mp hzero]
  | err e =>
      rw [hqos] at h
      cases h
  | panic =>
      rw [hqos] at h
      cases h

/-- What a hand-over adds to the list of a channel. -/
def added (w : Traffic) (t : TaskId) (out : Publish) (target : Session) (ch : ChannelId) :
    List Placed :=
  if w.state.shared.roomy target.control ∧ ch = target.control then [w.entry t out] else []

theorem placed_recordHandOver (w : Traffic) (t : TaskId) (out : Publish) (before target : Session)
    (ch : ChannelId) :
    (w.recordHandOver t out before target).placed ch = w.placed ch ++ w.added t out target ch := by
  unfold recordHandOver added
  simp only
  split
  · rename_i hroom
    by_cases hne : ch = target.control
    · rw [hne, Function.update_self]
      exact congrArg _ (if_pos ⟨hroom, rfl⟩).symm
    · rw [Function.update_of_ne hne, if_neg fun hand => hne hand.2, List.append_nil]
  · rename_i hroom
    rw [if_neg fun hand => hroom hand.1, List.append_nil]

theorem publishes_handOver (w : Traffic) (t : TaskId) (ref : Ref) (out : Publish) (target : Session)
    (ch : ChannelId) :
    (if w.state.shared.roomy target.control then
        (w.state.shared.setSession ref target).push target.control (.deliver out)
      else w.state.shared.setSession ref target).publishes ch =
      w.state.shared.publishes ch ++ (w.added t out target ch).map (·.message) := by
  unfold added
  split
  · rename_i hroom
    rw [Shared.publishes_push]
    by_cases hne : ch = target.control
    · subst hne
      rw [if_pos rfl, if_pos ⟨hroom, rfl⟩]
      rfl
    · rw [if_neg hne, if_neg fun hand => hne hand.2]
      exact (List.append_nil _).symm
  · rename_i hroom
    rw [if_neg fun hand => hroom hand.1]
    exact (List.append_nil _).symm

theorem mem_added {out : Publish} {target : Session} {ch : ChannelId} {e : Placed}
    (he : e ∈ w.added t out target ch) : e = w.entry t out ∧ ch = target.control := by
  unfold added at he
  split at he
  · rename_i hand
    exact ⟨List.mem_singleton.mp he, hand.2⟩
  · cases he

theorem serial_entry {out : Publish} {k : Nat} (hk : (w.entry t out).serial = some k) :
    out.qos ≠ .ok .atMostOnce ∧ k = w.assigned.length := by
  unfold entry at hk
  simp only at hk
  split at hk
  · rename_i habove
    cases hk
    exact ⟨habove, rfl⟩
  · cases hk

/-- The identifiers that are there keep their places. -/
theorem assigned_recordHandOver (w : Traffic) (t : TaskId) (out : Publish) (before target : Session) :
    (∀ (k : Nat) (id : UInt16), w.assigned[k]? = some id →
        (w.recordHandOver t out before target).assigned[k]? = some id) ∧
      (out.qos ≠ .ok .atMostOnce →
        (w.recordHandOver t out before target).assigned[w.assigned.length]? =
          some before.nextPacketId.1) := by
  unfold recordHandOver
  by_cases habove : out.qos ≠ .ok .atMostOnce
  · simp only [if_pos habove]
    refine ⟨fun k id hk => ?_, fun _ => by simp⟩
    obtain ⟨hlt, -⟩ := List.getElem?_eq_some_iff.mp hk
    rwa [List.getElem?_append_left hlt]
  · simp only [if_neg habove]
    exact ⟨fun k id hk => hk, fun h => absurd h habove⟩

theorem Filed.handOver (h : w.Filed) {publish out : Publish} {qos : QoSLevel} {ref : Ref}
    {target : Session} (hlt : ref < w.state.shared.nextRef)
    (hover : Broker.handOver publish qos (w.state.shared.sessions ref) = .ok (out, target))
    (hchannel : w'.state.shared.nextChannel = w.state.shared.nextChannel)
    (href : w'.state.shared.nextRef = w.state.shared.nextRef)
    (hsessions : w'.state.shared.sessions = Function.update w.state.shared.sessions ref target)
    (hpublishes : ∀ ch, w'.state.shared.publishes ch =
      w.state.shared.publishes ch ++ (w.added t out target ch).map (·.message))
    (hclient : w'.client = w.client)
    (hassigned : w'.assigned =
      (w.recordHandOver t out (w.state.shared.sessions ref) target).assigned)
    (hplaced : ∀ ch, w'.placed ch = w.placed ch ++ w.added t out target ch) : w'.Filed := by
  obtain ⟨hcontrol, hid, hpacketId⟩ := packetId_of_handOver hover
  obtain ⟨hkept, hnew⟩ := w.assigned_recordHandOver t out (w.state.shared.sessions ref) target
  have hcontrolLt := h.control_lt hlt
  rw [← hcontrol] at hcontrolLt
  refine ⟨fun ch hch => ?_, fun ref' hlt' => ?_, fun ch hch => ?_, fun ch => ?_, fun ch e he k hk => ?_⟩
  · rw [hchannel] at hch
    have hnone : w.added t out target ch = [] := by
      refine if_neg fun hand => ?_
      rw [hand.2] at hch
      exact absurd hcontrolLt (Nat.not_lt.mpr hch)
    rw [hplaced, hclient, hnone, List.append_nil]
    exact h.fresh ch hch
  · rw [href] at hlt'
    rw [hclient, hsessions]
    by_cases hne : ref' = ref
    · subst hne
      rw [Function.update_self, hcontrol, hid]
      exact h.owner ref' hlt'
    · rw [Function.update_of_ne hne]
      exact h.owner ref' hlt'
  · rw [hchannel] at hch
    obtain ⟨received, heq⟩ := h.queue ch hch
    exact ⟨received, by rw [hplaced, hpublishes, List.map_append, heq, List.append_assoc]⟩
  · rw [hplaced, List.filterMap_append]
    refine List.pairwise_append.mpr ⟨h.serial ch, ?_, fun k hk k' hk' => ?_⟩
    · unfold added
      split
      · rw [List.filterMap_cons]
        cases (w.entry t out).serial with
        | none => exact List.Pairwise.nil
        | some k => exact List.pairwise_singleton _ k
      · exact List.Pairwise.nil
    · -- what was assigned before has a lower place
      obtain ⟨e, he, hserial⟩ := List.mem_filterMap.mp hk
      obtain ⟨e', he', hserial'⟩ := List.mem_filterMap.mp hk'
      obtain ⟨id, hk, -⟩ := h.given ch e he k hserial
      obtain ⟨rfl, -⟩ := mem_added he'
      rw [(serial_entry hserial').2]
      exact (List.getElem?_eq_some_iff.mp hk).1
  · rw [hplaced] at he
    rw [hassigned]
    rcases List.mem_append.mp he with he | he
    · obtain ⟨id, hk, hid⟩ := h.given ch e he k hk
      exact ⟨id, hkept k id hk, hid⟩
    · obtain ⟨rfl, -⟩ := mem_added he
      obtain ⟨habove, rfl⟩ := serial_entry hk
      exact ⟨_, hnew habove, hpacketId habove⟩

/-- A publish that is handed over goes to the end of the list. -/
theorem Filed.act_deliver (h : w.Filed) (binv : Broker.Inv w.state) {publish : Publish}
    {sender : String} {sub : Subscriber}
    (hacted : Acted w.state t c s' (.deliver publish sender sub) rest sh next)
    {w₁ : Traffic} (hw₁ : w.recordAction t (.deliver publish sender sub) = w₁)
    (hstate : w'.state = s') (hclient : w'.client = w₁.client)
    (hassigned : w'.assigned = w₁.assigned) (hplaced : w'.placed = w₁.placed) : w'.Filed := by
  subst hstate
  obtain ⟨hchannel, href, hsessions, hpublishes⟩ := shared_afterNext hacted
  cases hacted.performed with
  | deliver _ _ _ _ hdeliver =>
      rcases Shared.deliver_cases hdeliver with ⟨hnone, rfl⟩ | ⟨ref, out, target, hsome, hactive, hover, hsh⟩
      · simp only [recordAction, hnone] at hw₁
        subst hw₁
        exact h.keep hchannel href (fun _ => by rw [hsessions]) (fun _ _ => by rw [hsessions])
          (fun ch => ⟨[], by rw [hpublishes]; rfl⟩) hclient hassigned hplaced
      · simp only [recordAction, hsome] at hw₁
        subst hw₁
        refine h.handOver (t := t) (binv.sound.active hactive).2.2 hover ?_ ?_ ?_ (fun ch => ?_) hclient
          hassigned (fun ch => ?_)
        · rw [hchannel, hsh]
          split <;> rfl
        · rw [href, hsh]
          split <;> rfl
        · rw [hsessions, hsh]
          split <;> rfl
        · rw [hpublishes, hsh]
          exact w.publishes_handOver t ref out target ch
        · rw [hplaced]
          exact w.placed_recordHandOver t out _ target ch

theorem Filed.step (h : w.Filed) (binv : Broker.Inv w.state) (hstep : w.step l = some w') :
    w'.Filed := by
  have binv' := binv.step (state_of_step hstep)
  obtain ⟨state, hstate, rfl⟩ := step_eq_some.mp hstep
  rcases step_cases hstate with ⟨n, e, todo, rfl, hhandled⟩ |
    ⟨t, c, a, rest, sh, next, rfl, hacted⟩ | ⟨token, rfl, hfired⟩ | ⟨accept, rfl, rfl⟩ |
    ⟨secs, rfl, -, rfl⟩
  · obtain ⟨hclient, hassigned, hplaced⟩ := w.recordEvent_same (.connection n) e
    exact h.event hhandled rfl hclient hassigned hplaced
  · have hrecord : w.record (.act t c) = w.recordAction t a := by
      simp only [record, hacted.todo]
    cases a with
    | deliver publish sender sub =>
        exact h.act_deliver binv hacted hrecord.symm rfl rfl rfl rfl
    | enroll x target =>
        exact h.act_enroll binv' hacted rfl (by rw [hrecord]; rfl) (by rw [hrecord]; rfl)
          (by rw [hrecord]; rfl)
    | _ =>
        exact h.act_plain hacted rfl (fun _ _ heq => by cases heq) rfl (by rw [hrecord]; rfl)
          (by rw [hrecord]; rfl) (by rw [hrecord]; rfl)
  · refine h.keep ?_ ?_ (fun _ => ?_) (fun _ _ => ?_) (fun ch => ⟨[], ?_⟩) rfl rfl rfl
    all_goals simp only [hfired.shared]
    rfl
  · exact h.keep rfl rfl (fun _ => rfl) (fun _ _ => rfl) (fun ch => ⟨[], rfl⟩) rfl rfl rfl
  · exact h.keep rfl rfl (fun _ => rfl) (fun _ _ => rfl) (fun ch => ⟨[], rfl⟩) rfl rfl rfl

end

end Traffic

end Broker
end Vaux
