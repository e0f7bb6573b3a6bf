import Vaux.Broker.Traffic

/-!
# Where the messages of the broker are

Every place of the state that holds a message: what a handler has left to do, a control
channel, the unacknowledged messages of a session, a will, a delayed will.  A message is on its
way to the tree, to one subscriber that was found for it, or to a client.  What is said of the
three is kept by all actions, if it is kept by the copy for a subscriber and by a redelivery.
-/

namespace Vaux
namespace Broker

open Wire Mqtt Machine

/-! ## Marks -/

/-- What is said of a message from a client, of one and a subscriber that was found for it, and
of one that is bound for a client.  Wills are from the client with the empty name. -/
structure Marks where
  routed : String → Publish → Prop
  found : String → Publish → Subscriber → Prop
  bound : String → Publish → Prop

/-- The two ways in which the broker makes a message from a message keep the marks. -/
structure Marks.Kept (M : Marks) : Prop where
  handOver : ∀ sender publish sub target out target', M.found sender publish sub →
    ¬ (sub.noLocal = true ∧ sub.sessionId = sender) →
    Broker.handOver publish sub.qos target = .ok (out, target') → M.bound sub.sessionId out
  redelivered : ∀ id packetId publish, M.bound id publish →
    M.bound id (Broker.redelivered packetId publish)

/-- The marks `M'` say no more than the marks `M`. -/
structure Marks.Le (M M' : Marks) : Prop where
  routed : ∀ {sender publish}, M.routed sender publish → M'.routed sender publish
  found : ∀ {sender publish sub}, M.found sender publish sub → M'.found sender publish sub
  bound : ∀ {id publish}, M.bound id publish → M'.bound id publish

section

variable (M : Marks)

/-- The will of a CONNECT. -/
def WillRouted (connect : Connect) : Prop :=
  ∀ will, connect.willMessage = some will → M.routed "" (Shared.willPublish will)

/-- The task was accepted for a client that the message is bound for. -/
def BoundFor (acceptance : Option Acceptance) (publish : Publish) : Prop :=
  ∃ A, acceptance = some A ∧ M.bound A.sessionId publish

def Action.Within (acceptance : Option Acceptance) : Action → Prop
  | .negotiate connect => WillRouted M connect
  | .enterPool a | .lockOld _ a _ | .disconnectOld _ a _ | .settle a _ | .enroll a _ =>
    WillRouted M a.connect
  | .track _ _ publish | .write (.publish publish) => BoundFor M acceptance publish
  | .route publish sender => M.routed sender publish
  | .deliver publish sender sub => M.found sender publish sub
  | _ => True

structure Session.Within (s : Session) : Prop where
  pending : ∀ packetId publish, s.pendingAck.lookup packetId = some publish → M.bound s.id publish
  will : ∀ will, s.willMessage = some will → M.routed "" (Shared.willPublish will)

/-- `client` says which client a channel is for. -/
structure Shared.Within (client : ChannelId → Option String) (sh : Shared) : Prop where
  sessions : ∀ ref, (sh.sessions ref).Within M
  channels : ∀ ch publish, .deliver publish ∈ (sh.channels ch).queue →
    ∃ id, client ch = some id ∧ M.bound id publish
  delays : ∀ token, (sh.delays token).waiting = true →
    M.routed "" (Shared.willPublish (sh.delays token).will)

structure Traffic.Within (w : Traffic) : Prop where
  shared : w.state.shared.Within M w.client
  todo : ∀ t, ∀ a ∈ (w.state.tasks t).todo, a.Within M (w.state.history.accepted t)
  /-- A handler reads the channel of its own client. -/
  reader : ∀ t ch, (w.state.tasks t).sessionControl = some ch →
    ∃ A, w.state.history.accepted t = some A ∧ w.client ch = some A.sessionId

end

/-! ## Sessions and channels -/

section

variable {M M' : Marks} {client : ChannelId → Option String} {sh sh' : Shared} {t : TaskId}
  {c : Choice} {a : Action} {next : Next} {ref : Ref} {session : Session}
  {acceptance : Option Acceptance}

theorem Action.Within.mono (hle : M.Le M') (h : a.Within M acceptance) : a.Within M' acceptance := by
  have hbound : ∀ {publish}, BoundFor M acceptance publish → BoundFor M' acceptance publish :=
    fun ⟨A, hA, hB⟩ => ⟨A, hA, hle.bound hB⟩
  have hwill : ∀ {connect}, WillRouted M connect → WillRouted M' connect :=
    fun h will heq => hle.routed (h will heq)
  cases a with
  | negotiate | enterPool | lockOld | disconnectOld | settle | enroll => exact hwill h
  | track => exact hbound h
  | write packet =>
      cases packet with
      | publish => exact hbound h
      | _ => trivial
  | route => exact hle.routed h
  | deliver => exact hle.found h
  | _ => trivial

theorem Shared.Within.mono (hle : M.Le M') (h : sh.Within M client) : sh.Within M' client where
  sessions ref :=
    ⟨fun k p hp => hle.bound ((h.sessions ref).pending k p hp),
      fun will hwill => hle.routed ((h.sessions ref).will will hwill)⟩
  channels ch publish hmem :=
    (h.channels ch publish hmem).imp fun _ hid => ⟨hid.1, hle.bound hid.2⟩
  delays token hwaiting := hle.routed (h.delays token hwaiting)

namespace Session

theorem Within.trackQosPublish {s : Session} (h : s.Within M) (packetId : UInt16) {publish : Publish}
    (hpublish : M.bound s.id publish) : (s.trackQosPublish packetId publish).Within M := by
  refine ⟨fun k p hp => ?_, h.will⟩
  rw [lookup_trackQosPublish] at hp
  split at hp
  · cases hp
    exact hpublish
  · exact h.pending k p hp

theorem Within.acknowledge {s : Session} (h : s.Within M) (packetId : UInt16) :
    (s.acknowledge packetId).2.Within M := by
  refine ⟨fun k p hp => ?_, h.will⟩
  rw [lookup_acknowledge] at hp
  split at hp
  · cases hp
  · exact h.pending k p hp

theorem Within.drainPending {s : Session} (h : s.Within M) : s.drainPending.Within M := by
  refine ⟨fun k p hp => ?_, h.will⟩
  rw [Session.drainPending, AList.lookup_empty] at hp
  cases hp

theorem Within.withoutWill {s : Session} (h : s.Within M) : s.clearWill.Within M :=
  ⟨h.pending, fun w hw => by cases hw⟩

theorem Within.setConnected {s : Session} (h : s.Within M) (connected : Bool) :
    (s.setConnected connected).Within M :=
  ⟨h.pending, h.will⟩

theorem within_new (id : String) {will : Option WillMessage} (keepAlive : Nat) (ch : ChannelId)
    (hwill : ∀ w, will = some w → M.routed "" (Shared.willPublish w)) :
    (new id will keepAlive ch).Within M := by
  refine ⟨fun k p hp => ?_, hwill⟩
  rw [new, AList.lookup_empty] at hp
  cases hp

end Session

namespace Shared

theorem Within.setSession (h : sh.Within M client) (hsession : session.Within M) :
    (sh.setSession ref session).Within M client := by
  refine ⟨fun ref' => ?_, h.channels, h.delays⟩
  by_cases heq : ref' = ref
  · subst heq
    simpa [Shared.setSession] using hsession
  · simpa [Shared.setSession, heq] using h.sessions ref'

theorem Within.setChannel (h : sh.Within M client) {ch : ChannelId} {channel : Channel}
    (hchannel : ∀ publish, .deliver publish ∈ channel.queue →
      ∃ id, client ch = some id ∧ M.bound id publish) :
    (sh.setChannel ch channel).Within M client := by
  refine ⟨h.sessions, fun ch' publish hmem => ?_, h.delays⟩
  by_cases heq : ch' = ch
  · subst heq
    simp only [Shared.setChannel, Function.update_self] at hmem
    exact hchannel publish hmem
  · simp only [Shared.setChannel, Function.update_of_ne heq] at hmem
    exact h.channels ch' publish hmem

theorem Within.push (h : sh.Within M client) {ch : ChannelId} {msg : SessionControl}
    (hmsg : ∀ publish, msg = .deliver publish → ∃ id, client ch = some id ∧ M.bound id publish) :
    (sh.push ch msg).Within M client := by
  refine h.setChannel fun publish hmem => ?_
  rcases List.mem_append.mp hmem with hmem | hmem
  · exact h.channels ch publish hmem
  · exact hmsg publish (List.mem_singleton.mp hmem).symm

theorem Within.close (h : sh.Within M client) (ch : Option ChannelId) :
    (sh.close ch).Within M client := by
  cases ch with
  | none => exact h
  | some ch => exact h.setChannel (h.channels ch)

theorem Within.setDelay (h : sh.Within M client) (token : Token) {delay : Delay}
    (hdelay : delay.waiting = true → M.routed "" (willPublish delay.will)) :
    ({ sh with delays := Function.update sh.delays token delay } : Shared).Within M client := by
  refine ⟨h.sessions, h.channels, fun token' hwaiting => ?_⟩
  by_cases heq : token' = token
  · subst heq
    simp only [Function.update_self] at hwaiting ⊢
    exact hdelay hwaiting
  · simp only [Function.update_of_ne heq] at hwaiting ⊢
    exact h.delays token' hwaiting

theorem Within.cancel (h : sh.Within M client) (token : Option Token) :
    (sh.cancel token).Within M client := by
  cases token with
  | none => exact h
  | some token => exact h.setDelay token (h.delays token)

/-- A new channel is for whichever client it will be said to be for. -/
theorem Within.newChannel (h : sh.Within M client) (id : String) :
    sh.newChannel.Within M (Function.update client sh.nextChannel (some id)) := by
  refine ⟨h.sessions, fun ch publish hmem => ?_, h.delays⟩
  by_cases heq : ch = sh.nextChannel
  · subst heq
    simp only [Shared.newChannel, Shared.setChannel, Function.update_self] at hmem
    exact (List.not_mem_nil hmem).elim
  · simp only [Shared.newChannel, Shared.setChannel, Function.update_of_ne heq] at hmem
    rw [Function.update_of_ne heq]
    exact h.channels ch publish hmem

end Shared

/-! ## The pool changes a session in its flag -/

theorem setConnected_update (sessions : Sessions) (ref ref' : Ref) (connected : Bool) :
    ∃ b, Function.update sessions ref ((sessions ref).setConnected connected) ref' =
      (sessions ref').setConnected b := by
  by_cases heq : ref' = ref
  · subst heq
    exact ⟨connected, Function.update_self ..⟩
  · exact ⟨(sessions ref').connected, Function.update_of_ne heq ..⟩

theorem sessions_deactivate (pool : SessionPool) (sessions : Sessions) (id : String) (ref : Ref) :
    ∃ b, (pool.deactivate sessions id).2 ref = (sessions ref).setConnected b := by
  unfold SessionPool.deactivate
  split
  · exact setConnected_update sessions _ ref false
  · exact ⟨(sessions ref).connected, rfl⟩

theorem sessions_choose (sh : Shared) (a : Admission) (ref : Ref) :
    ∃ b, (sh.choose a).1.sessions ref = (sh.sessions ref).setConnected b := by
  rcases Shared.choose_cases sh a with ⟨_, _, -, -, heq, -⟩ | ⟨_, _, sessions, hactivate, heq, -⟩ |
    ⟨_, -, heq, -⟩ | ⟨-, -, heq, -⟩
  · rw [heq]
    exact ⟨(sh.sessions ref).connected, rfl⟩
  · rw [heq]
    unfold SessionPool.activate at hactivate
    split at hactivate
    · cases hactivate
      exact setConnected_update sh.sessions _ ref true
    · cases hactivate
  · rw [heq]
    exact ⟨(sh.sessions ref).connected, rfl⟩
  · rw [heq]
    exact ⟨(sh.sessions ref).connected, rfl⟩

/-- The choice of a session leaves the channels and the delay tasks alone. -/
theorem frame_choose (sh : Shared) (a : Admission) :
    (sh.choose a).1.channels = sh.channels ∧ (sh.choose a).1.delays = sh.delays := by
  rcases Shared.choose_cases sh a with ⟨_, _, -, -, heq, -⟩ | ⟨_, _, _, -, heq, -⟩ | ⟨_, -, heq, -⟩ |
    ⟨-, -, heq, -⟩
  all_goals
    rw [heq]
    exact ⟨rfl, rfl⟩

theorem Shared.Within.choose (h : sh.Within M client) (a : Admission) :
    (sh.choose a).1.Within M client := by
  obtain ⟨hchannels, hdelays⟩ := frame_choose sh a
  refine ⟨fun ref => ?_, ?_, ?_⟩
  · obtain ⟨b, hb⟩ := sessions_choose sh a ref
    rw [hb]
    exact (h.sessions ref).setConnected b
  · rw [hchannels]
    exact h.channels
  · rw [hdelays]
    exact h.delays

/-- What holds the lock of the pool has the will of its CONNECT. -/
theorem within_of_holds {x : Admission} {target : Option Ref} (h : a.holds = some (x, target))
    (hwill : WillRouted M x.connect) : a.Within M acceptance := by
  cases a with
  | lockOld | disconnectOld | settle | enroll =>
      cases h
      exact hwill
  | _ => cases h

/-! ## What an action does -/

/-- The environment of an action: the subscribers that it may find, the sessions of the pool
with their channels, and the session of the task. -/
structure Surrounds (M : Marks) (client : ChannelId → Option String) (sh : Shared)
    (acceptance : Option Acceptance) (a : Action) : Prop where
  finds : ∀ publish sender subscribers, a = .route publish sender →
    sh.tree.matchingSubscribers publish.topicName = some subscribers →
    ∀ sub ∈ subscribers, M.found sender publish sub
  active : ∀ id ref, sh.pool.getActive id = some ref →
    (sh.sessions ref).id = id ∧ client (sh.sessions ref).control = some id
  session : ∀ ref, a.session = some ref →
    ∃ A, acceptance = some A ∧ (sh.sessions ref).id = A.sessionId

theorem within_redelivery (hM : M.Kept) {pending : List (UInt16 × Publish)}
    (hpending : ∀ x ∈ pending, BoundFor M acceptance x.2) :
    ∀ b ∈ Shared.redelivery ref pending, b.Within M acceptance := by
  intro b hb
  obtain ⟨x, hx, hb⟩ := List.mem_flatMap.mp hb
  obtain ⟨A, hA, hbound⟩ := hpending x hx
  have hagain : BoundFor M acceptance (Broker.redelivered x.1 x.2) :=
    ⟨A, hA, hM.redelivered _ _ _ hbound⟩
  rcases List.mem_cons.mp hb with rfl | hb
  · exact hagain
  · rw [List.mem_singleton.mp hb]
    exact hagain

/-- A message that goes to a subscriber. -/
theorem Shared.Within.deliver (hM : M.Kept) (h : sh.Within M client)
    (hactive : ∀ id ref, sh.pool.getActive id = some ref →
      (sh.sessions ref).id = id ∧ client (sh.sessions ref).control = some id)
    {publish : Publish} {sender : String} {sub : Subscriber} (hfound : M.found sender publish sub)
    (hd : sh.deliver publish sender sub = some sh') : sh'.Within M client := by
  by_cases hown : sub.noLocal = true ∧ sub.sessionId = sender
  · rw [Shared.deliver, if_pos hown] at hd
    cases hd
    exact h
  · have hover : ∀ {ref : Ref} {out : Publish} {target : Session},
        sh.pool.getActive sub.sessionId = some ref →
        handOver publish sub.qos (sh.sessions ref) = .ok (out, target) →
          (sh.setSession ref target).Within M client ∧
            client target.control = some sub.sessionId ∧ M.bound sub.sessionId out := by
      intro ref out target href hover
      obtain ⟨hid, hclient⟩ := hactive _ _ href
      have hbound := hM.handOver _ _ _ _ _ _ hfound hown hover
      unfold handOver at hover
      obtain ⟨q, hq, hover⟩ := Outcome.bind_eq_ok.mp hover
      simp only at hover
      split at hover
      · cases hover
        have hnext : (sh.sessions ref).nextPacketId.2.Within M :=
          ⟨(h.sessions ref).pending, (h.sessions ref).will⟩
        refine ⟨h.setSession (hnext.trackQosPublish _ ?_), hclient, hbound⟩
        exact hid.symm ▸ hbound
      · cases hover
        exact ⟨h.setSession (h.sessions ref), hclient, hbound⟩
    cases Shared.delivered_of_deliver hd with
    | own hnoLocal howner => exact absurd ⟨hnoLocal, howner⟩ hown
    | absent => exact h
    | sent ref out target href ho hopen hroom =>
        obtain ⟨hset, hclient, hbound⟩ := hover href ho
        refine hset.push fun publish' heq => ?_
        cases heq
        exact ⟨_, hclient, hbound⟩
    | dropped ref out target href ho => exact (hover href ho).1

/-- The session that a connection enrolls with has the will of its CONNECT. -/
theorem Shared.Within.enroll (h : sh.Within M client) {x : Admission}
    (hwill : WillRouted M x.connect) (target : Option Ref) (id : String) :
    (sh.enroll x target).1.Within M (Function.update client sh.nextChannel (some id)) := by
  cases target with
  | none =>
      have hnew : ((Session.new x.sessionId x.connect.willMessage x.keepAlive
          sh.nextChannel).setConnected true).Within M :=
        (Session.within_new x.sessionId x.keepAlive sh.nextChannel hwill).setConnected true
      have hset : (sh.newChannel.setSession sh.nextRef ((Session.new x.sessionId
          x.connect.willMessage x.keepAlive sh.nextChannel).setConnected true)).Within M
            (Function.update client sh.nextChannel (some id)) :=
        (h.newChannel id).setSession hnew
      exact ⟨hset.sessions, hset.channels, hset.delays⟩
  | some ref =>
      -- what is done to the old channel and the pending will does not matter here
      generalize hbase : (sh.cancel (sh.sessions ref).cancelPendingWill.1).close
        (if (sh.sessions ref).cancelPendingWill.2.receiver then
          some (sh.sessions ref).cancelPendingWill.2.control else none) = base
      have hchannel : base.nextChannel = sh.nextChannel := by
        rw [← hbase, Shared.nextChannel_close, Shared.nextChannel_cancel]
      have hwithin : base.Within M client := by
        rw [← hbase]
        exact (h.cancel _).close _
      have hadopt : sh.adopt x ref = base.newChannel.setSession ref
          (((sh.sessions ref).cancelPendingWill.2.setWill x.connect.willMessage).resetControl
            base.nextChannel) := by
        rw [← hbase]
        rfl
      have hset : (sh.adopt x ref).Within M (Function.update client sh.nextChannel (some id)) := by
        rw [hadopt, ← hchannel]
        exact (hwithin.newChannel id).setSession ⟨(h.sessions ref).pending, hwill⟩
      exact ⟨hset.sessions, hset.channels, hset.delays⟩

theorem Shared.Within.performed (hM : M.Kept) (h : sh.Within M client)
    (ha : a.Within M acceptance) (hsurrounds : Surrounds M client sh acceptance a)
    (henroll : ∀ x target, a ≠ .enroll x target) (hp : Shared.Performed sh t c a sh' next) :
    sh'.Within M client ∧ ∀ b ∈ next.more, b.Within M acceptance := by
  have hkeep : ∀ {ref : Ref} {session : Session}, session.pendingAck = (sh.sessions ref).pendingAck →
      session.id = (sh.sessions ref).id → session.willMessage = (sh.sessions ref).willMessage →
      (sh.setSession ref session).Within M client := by
    intro ref session hpending hid hwill
    refine h.setSession ⟨?_, ?_⟩
    · rw [hpending, hid]
      exact (h.sessions ref).pending
    · rw [hwill]
      exact (h.sessions ref).will
  cases hp with
  | register x | adopt x ref => exact absurd rfl (henroll _ _)
  | negotiate connect =>
      refine ⟨h, List.forall_mem_singleton.mpr ?_⟩
      have hconnect : (Broker.negotiate sh.pool connect c.uuid).connect = connect := by
        unfold Broker.negotiate
        simp only
        split <;> rfl
      show WillRouted M _
      rw [hconnect]
      exact ha
  | reject => exact ⟨h, by simp [Next.more, Action.Within]⟩
  | enter x =>
      have hchoose := h.choose x
      refine ⟨⟨hchoose.sessions, hchoose.channels, hchoose.delays⟩, List.forall_mem_singleton.mpr ?_⟩
      rcases Shared.choose_cases sh x with ⟨_, _, -, -, -, hholds⟩ | ⟨_, _, _, -, -, hholds⟩ |
        ⟨_, -, -, hholds⟩ | ⟨-, -, -, hholds⟩
      all_goals exact within_of_holds hholds ha
  | lockOld => exact ⟨⟨h.sessions, h.channels, h.delays⟩, List.forall_mem_singleton.mpr ha⟩
  | oldClosed => exact ⟨⟨h.sessions, h.channels, h.delays⟩, List.forall_mem_singleton.mpr ha⟩
  | oldSent ref x target hopen hroom =>
      have hpush : (sh.push (sh.sessions ref).control (.disconnect .sessionTakeOver)).Within M client :=
        h.push fun publish heq => by cases heq
      exact ⟨⟨hpush.sessions, hpush.channels, hpush.delays⟩, List.forall_mem_singleton.mpr ha⟩
  | settle => exact ⟨h, List.forall_mem_singleton.mpr ha⟩
  | grantExpiry ref expiry hwritable => exact ⟨hkeep rfl rfl rfl, by simp [Next.more]⟩
  | keepExpiry => exact ⟨h, by simp [Next.more]⟩
  | openSession ref hwritable horder =>
      refine ⟨h.setSession (Session.Within.drainPending
        ⟨(h.sessions ref).pending, (h.sessions ref).will⟩), fun b hb => ?_⟩
      rcases List.mem_append.mp hb with hb | hb
      · refine within_redelivery hM (fun x hx => ?_) b hb
        obtain ⟨A, hA, hid⟩ := hsurrounds.session ref rfl
        have hlookup := Session.mem_pending_iff.mp (horder.mem_iff.mp hx)
        exact ⟨A, hA, hid ▸ (h.sessions ref).pending x.1 x.2 hlookup⟩
      · rw [List.mem_singleton.mp hb]
        trivial
  | track ref packetId publish hwritable =>
      refine ⟨h.setSession ((h.sessions ref).trackQosPublish packetId ?_), by simp [Next.more]⟩
      obtain ⟨A, hA, hbound⟩ := ha
      obtain ⟨A', hA', hid⟩ := hsurrounds.session ref rfl
      cases hA.symm.trans hA'
      exact hid.symm ▸ hbound
  | acceptSession ref => exact ⟨h, by simp [Next.more]⟩
  | write => exact ⟨h, by simp [Next.more]⟩
  | writeFails => exact ⟨h, by simp [Next.more]⟩
  | shutdown => exact ⟨h, by simp [Next.more]⟩
  | shutdownFails => exact ⟨h, by simp [Next.more]⟩
  | noWill ref => exact ⟨h.setSession (h.sessions ref).withoutWill, by simp [Next.more]⟩
  | publishWill ref will hwritable hsome hdelay =>
      refine ⟨h.setSession (h.sessions ref).withoutWill, List.forall_mem_singleton.mpr ?_⟩
      exact (h.sessions ref).will will hsome
  | delayWill ref will hwritable hsome hdelay =>
      have hset : (sh.setSession ref (sh.sessions ref).takeWill.2).Within M client :=
        h.setSession (h.sessions ref).withoutWill
      have hdelays := hset.setDelay sh.nextToken
        (show ({ will, cancelled := false, waiting := true } : Delay).waiting = true →
            M.routed "" (Shared.willPublish will) from fun _ => (h.sessions ref).will will hsome)
      exact ⟨⟨hdelays.sessions, hdelays.channels, hdelays.delays⟩,
        List.forall_mem_singleton.mpr trivial⟩
  | setPendingWill ref token hwritable =>
      exact ⟨(h.cancel _).setSession ⟨(h.sessions ref).pending, (h.sessions ref).will⟩,
        by simp [Next.more]⟩
  | clearWill ref => exact ⟨h.setSession (h.sessions ref).withoutWill, by simp [Next.more]⟩
  | acknowledge ref packetId hwritable =>
      exact ⟨h.setSession ((h.sessions ref).acknowledge packetId), by simp [Next.more]⟩
  | deactivate sessionId hfree =>
      refine ⟨⟨fun ref => ?_, h.channels, h.delays⟩, by simp [Next.more]⟩
      obtain ⟨b, hb⟩ := sessions_deactivate sh.pool sh.sessions sessionId ref
      simp only [hb]
      exact (h.sessions ref).setConnected b
  | subscribe =>
      exact ⟨⟨h.sessions, h.channels, h.delays⟩, List.forall_mem_singleton.mpr trivial⟩
  | unsubscribe =>
      exact ⟨⟨h.sessions, h.channels, h.delays⟩, List.forall_mem_singleton.mpr trivial⟩
  | route publish sender subscribers hmatching =>
      refine ⟨h, fun b hb => ?_⟩
      simp only [Next.more, List.cons_append, List.mem_cons, List.mem_append, List.mem_map,
        List.not_mem_nil, or_false] at hb
      rcases hb with rfl | ⟨sub, hsub, rfl⟩ | rfl
      · trivial
      · exact hsurrounds.finds publish sender subscribers rfl hmatching sub hsub
      · trivial
  | lockPool => exact ⟨⟨h.sessions, h.channels, h.delays⟩, by simp [Next.more]⟩
  | deliver publish sender sub _ hdeliver =>
      exact ⟨h.deliver hM hsurrounds.active ha hdeliver, by simp [Next.more]⟩
  | leavePool => exact ⟨⟨h.sessions, h.channels, h.delays⟩, by simp [Next.more]⟩
  | finish => exact ⟨h, by simp [Next.more]⟩

/-! ## What an event does -/

variable {task : Task} {e : Event} {todo : List Action}

/-- A handler goes on with messages that come to its connection. -/
structure Brings (M : Marks) (sh : Shared) (task : Task) (e : Event) : Prop where
  publish : ∀ publish ref, e = .packet (.publish publish) → task.connected = true →
    task.clientSession = some ref → M.routed (sh.sessions ref).id publish
  connect : ∀ connect, e = .packet (.connect connect) → WillRouted M connect

theorem within_ending (sh : Shared) (ref : Ref) : ∀ b ∈ sh.ending ref, b.Within M acceptance :=
  List.forall_mem_cons.mpr ⟨trivial, List.forall_mem_singleton.mpr trivial⟩

theorem within_return (sh : Shared) (session : Option Ref) (result : Except BrokerError Unit) :
    ∀ b ∈ (session.map sh.ending).getD [] ++ [.finish result], b.Within M acceptance := by
  intro b hb
  rcases List.mem_append.mp hb with hb | hb
  · cases session with
    | none => exact (List.not_mem_nil hb).elim
    | some ref => exact within_ending sh ref b hb
  · rw [List.mem_singleton.mp hb]
    trivial

theorem within_handleControl (clientSession : Option Ref) {msg : SessionControl}
    (hmsg : ∀ publish, msg = .deliver publish → BoundFor M acceptance publish) :
    ∀ b ∈ sh.handleControl clientSession msg, b.Within M acceptance := by
  cases msg with
  | deliver publish => exact List.forall_mem_singleton.mpr (hmsg publish rfl)
  | disconnect reason =>
      cases clientSession with
      | none => exact List.forall_mem_cons.mpr ⟨trivial, List.forall_mem_singleton.mpr trivial⟩
      | some ref =>
          intro b hb
          rcases List.mem_append.mp hb with hb | hb
          · split at hb
            · exact (List.not_mem_nil hb).elim
            · rw [List.mem_singleton.mp hb]
              trivial
          · rw [List.mem_singleton.mp hb]
            trivial

theorem within_handlePublish {publish : Publish} {sessionId : String}
    (hrouted : M.routed sessionId publish) (h : Shared.handlePublish publish sessionId = some todo) :
    ∀ b ∈ todo, b.Within M acceptance := by
  unfold Shared.handlePublish at h
  split at h
  · split at h
    · cases h
      exact List.forall_mem_cons.mpr ⟨trivial, List.forall_mem_singleton.mpr hrouted⟩
    · cases h
      exact List.forall_mem_cons.mpr ⟨trivial, List.forall_mem_singleton.mpr trivial⟩
  · cases h
    exact List.forall_mem_singleton.mpr hrouted
  · cases h

theorem within_handlePacket {packet : Packet}
    (hrouted : ∀ publish, packet = .publish publish → M.routed (sh.sessions ref).id publish)
    (h : sh.handlePacket ref packet = some todo) : ∀ b ∈ todo, b.Within M acceptance := by
  cases packet with
  | publish publish => exact within_handlePublish (hrouted publish rfl) h
  | disconnect p =>
      simp only [Shared.handlePacket] at h
      split at h
      · cases h
        exact List.forall_mem_cons.mpr ⟨trivial, List.forall_mem_singleton.mpr trivial⟩
      · cases h
        exact within_ending sh ref
  | pingRequest | subscribe | unsubscribe | pubAck =>
      cases h
      exact List.forall_mem_singleton.mpr trivial
  | _ =>
      cases h
      exact fun b hb => (List.not_mem_nil hb).elim

theorem within_handlePreConnect {packet : Packet}
    (hwill : ∀ connect, packet = .connect connect → WillRouted M connect) :
    ∀ b ∈ sh.handlePreConnect packet, b.Within M acceptance := by
  cases packet with
  | connect connect =>
      simp only [Shared.handlePreConnect]
      split
      · exact List.forall_mem_singleton.mpr (hwill connect rfl)
      · exact List.forall_mem_cons.mpr ⟨trivial, List.forall_mem_singleton.mpr trivial⟩
  | _ => exact List.forall_mem_singleton.mpr trivial

theorem Shared.Within.arises (h : sh.Within M client) (hbrings : Brings M sh task e)
    (hreader : ∀ ch, task.sessionControl = some ch →
      ∃ A, acceptance = some A ∧ client ch = some A.sessionId)
    (harises : Shared.Arises sh task e todo) : ∀ b ∈ todo, b.Within M acceptance := by
  cases harises with
  | control msg hmsg =>
      refine within_handleControl _ fun publish heq => ?_
      obtain ⟨ch, hch, hhead⟩ := Option.bind_eq_some_iff.mp hmsg
      obtain ⟨A, hA, hclient⟩ := hreader ch hch
      obtain ⟨id, hid, hbound⟩ := h.channels ch publish (heq ▸ List.mem_of_head? hhead)
      cases hid.symm.trans hclient
      exact ⟨A, hA, hbound⟩
  | timeout ref => exact within_ending sh ref
  | idle => exact List.forall_mem_cons.mpr ⟨trivial, List.forall_mem_singleton.mpr trivial⟩
  | packet p ref _ hconnected href htodo =>
      exact within_handlePacket
        (fun publish heq => hbrings.publish publish ref (heq ▸ rfl) hconnected href) htodo
  | ignored => exact fun b hb => (List.not_mem_nil hb).elim
  | preConnect p hconnected =>
      exact within_handlePreConnect fun connect heq => hbrings.connect connect (heq ▸ rfl)
  | endOfStream => exact within_return sh _ _
  | readError => exact within_return sh _ _

theorem Shared.Within.handled (h : sh.Within M client)
    (hh : sh.handle task e = some (sh', todo)) : sh'.Within M client := by
  rcases Shared.handle_shared hh with heq | ⟨ch, msg, queue, -, -, hqueue, heq⟩
  · exact heq ▸ h
  · rw [heq]
    refine h.setChannel fun publish hmem => h.channels ch publish ?_
    rw [hqueue]
    exact List.mem_cons_of_mem msg hmem

end

/-! ## Steps -/

namespace Traffic

section

variable {M : Marks} {w w' : Traffic} {l : Label} {t : TaskId} {c : Choice} {a : Action}
  {rest : List Action} {sh : Shared} {next : Next} {s' : State}

theorem within_start (M : Marks) (config : Config) : (Traffic.start config).Within M where
  shared :=
    { sessions := fun ref => Session.within_new "" 0 0 fun w hw => by cases hw
      channels := fun _ _ hmem => (List.not_mem_nil hmem).elim
      delays := fun _ hwaiting => by cases hwaiting }
  todo := fun _ a ha => (List.not_mem_nil ha).elim
  reader := fun _ ch hch => by cases hch

theorem Within.mono {M' : Marks} (hle : M.Le M') (h : w.Within M) : w.Within M' :=
  ⟨h.shared.mono hle, fun t a ha => (h.todo t a ha).mono hle, h.reader⟩

theorem client_recordAction (ha : ∀ x target, a ≠ .enroll x target) :
    (w.recordAction t a).client = w.client := by
  cases a with
  | enroll x target => exact absurd rfl (ha x target)
  | deliver publish sender sub =>
      simp only [recordAction]
      split <;> rfl
  | _ => rfl

theorem surrounds_of_inv (binv : Broker.Inv w.state) (hfiled : w.Filed)
    (htodo : (w.state.tasks t).todo = a :: rest)
    (hfinds : ∀ publish sender subscribers, a = .route publish sender →
      w.state.shared.tree.matchingSubscribers publish.topicName = some subscribers →
      ∀ sub ∈ subscribers, M.found sender publish sub) :
    Surrounds M w.client w.state.shared (w.state.history.accepted t) a where
  finds := hfinds
  active id ref href := by
    obtain ⟨hid, -, hlt⟩ := binv.sound.active href
    exact ⟨hid, hid ▸ hfiled.owner ref hlt⟩
  session ref href := by
    obtain ⟨A, hA, rfl⟩ := (binv.task t).session a (htodo ▸ List.mem_cons_self ..) ref href
    exact ⟨A, hA, ((binv.task t).accepted A hA).2⟩

/-- The channel that a handler reads is the one of the session it has opened. -/
theorem Within.reader_after (h : w.Within M) (binv : Broker.Inv w.state) (hfiled : w.Filed)
    (hacted : Acted w.state t c s' a rest sh next) {ch : ChannelId}
    (hch : ((w.state.tasks t).after rest next).sessionControl = some ch) :
    ∃ A, w.state.history.accepted t = some A ∧ w.client ch = some A.sessionId := by
  have hp := hacted.performed
  cases hp with
  | openSession ref =>
      simp only [Task.after, Session.takeControlReceiver] at hch
      split at hch
      · cases hch
        obtain ⟨A, hA, rfl⟩ := (binv.task t).session (.openSession ref)
          (hacted.todo ▸ List.mem_cons_self ..) ref rfl
        obtain ⟨hlt, hid⟩ := (binv.task t).accepted A hA
        exact ⟨A, hA, hid ▸ hfiled.owner _ hlt⟩
      · cases hch
  | _ => exact h.reader t ch hch

theorem Within.act (hM : M.Kept) (h : w.Within M) (binv : Broker.Inv w.state) (hfiled : w.Filed)
    (hacted : Acted w.state t c s' a rest sh next) (hstate : w'.state = s')
    (hclient : w'.client = (w.recordAction t a).client)
    (hfinds : ∀ publish sender subscribers, a = .route publish sender →
      w.state.shared.tree.matchingSubscribers publish.topicName = some subscribers →
      ∀ sub ∈ subscribers, M.found sender publish sub) : w'.Within M := by
  subst hstate
  have hafter : ∀ {client}, sh.Within M client → w'.state.shared.Within M client := by
    intro client hsh
    rw [hacted.shared]
    cases next with
    | returned result => exact hsh.close _
    | _ => exact hsh
  have hmem : a ∈ (w.state.tasks t).todo := hacted.todo ▸ List.mem_cons_self ..
  by_cases henroll : ∃ x target, a = .enroll x target
  · obtain ⟨x, target, rfl⟩ := henroll
    obtain ⟨hsingle, hnone, -⟩ := (binv.task t).connecting _ hmem rfl
    have hrest : rest = [] := by
      rw [hacted.todo, List.cons.injEq] at hsingle
      exact hsingle.2
    obtain ⟨hsh, hnext⟩ : sh = (w.state.shared.enroll x target).1 ∧
        next = (w.state.shared.enroll x target).2 :=
      Prod.ext_iff.mp (Option.some.inj hacted.perform).symm
    have hothers : ∀ t', t' ≠ t →
        w'.state.history.accepted t' = w.state.history.accepted t' := by
      intro t' ht'
      rw [hacted.history, accepted_recordNext, accepted_recordAction_of_ne ht']
    refine ⟨hafter ?_, fun t' b hb => ?_, fun t' ch hch => ?_⟩
    · rw [hclient, hsh]
      exact h.shared.enroll (h.todo t _ hmem) target x.sessionId
    · by_cases ht' : t' = t
      · subst ht'
        rw [hacted.self, hnext, hrest] at hb
        simp only [Shared.enroll, Task.after, List.append_nil, List.mem_cons, List.not_mem_nil,
          or_false] at hb
        rcases hb with rfl | rfl | rfl <;> trivial
      · rw [hothers t' ht']
        rw [hacted.others t' ht'] at hb
        exact h.todo t' b hb
    · have hold : (w.state.tasks t').sessionControl = some ch := by
        by_cases ht' : t' = t
        · subst ht'
          rw [hacted.self, hnext] at hch
          exact hch
        · rw [hacted.others t' ht'] at hch
          exact hch
      obtain ⟨A, hA, hid⟩ := h.reader t' ch hold
      have ht' : t' ≠ t := by
        rintro rfl
        rw [hnone] at hA
        cases hA
      have hne : ch ≠ w.state.shared.nextChannel := by
        rintro rfl
        rw [(hfiled.fresh _ (Nat.le_refl _)).2] at hid
        cases hid
      refine ⟨A, (hothers t' ht').trans hA, ?_⟩
      rw [hclient]
      exact (Function.update_of_ne hne ..).trans hid
  · have hne : ∀ x target, a ≠ .enroll x target := fun x target heq => henroll ⟨x, target, heq⟩
    rw [client_recordAction hne] at hclient
    have haccepted : w'.state.history.accepted = w.state.history.accepted := by
      rw [hacted.history, accepted_recordNext, accepted_recordAction hne]
    obtain ⟨hsh, hmore⟩ := h.shared.performed hM (h.todo t a hmem)
      (surrounds_of_inv binv hfiled hacted.todo hfinds) hne hacted.performed
    refine ⟨hclient ▸ hafter hsh, fun t' b hb => ?_, fun t' ch hch => ?_⟩
    · rw [haccepted]
      by_cases ht' : t' = t
      · subst ht'
        rw [hacted.self] at hb
        rcases mem_todo_after hb with hb | hb
        · exact hmore b hb
        · exact h.todo t' b (hacted.todo ▸ List.mem_cons_of_mem a hb)
      · rw [hacted.others t' ht'] at hb
        exact h.todo t' b hb
    · rw [haccepted, hclient]
      by_cases ht' : t' = t
      · subst ht'
        rw [hacted.self] at hch
        exact h.reader_after binv hfiled hacted hch
      · rw [hacted.others t' ht'] at hch
        exact h.reader t' ch hch

/-- The marks are kept by a step, if what it brings in and what it finds have them. -/
theorem Within.step (hM : M.Kept) (h : w.Within M) (binv : Broker.Inv w.state) (hfiled : w.Filed)
    (hbrings : ∀ n e, l = .event n e →
      Brings M w.state.shared (w.state.tasks (.connection n)) e)
    (hfinds : ∀ t c publish sender rest subscribers, l = .act t c →
      (w.state.tasks t).todo = .route publish sender :: rest →
      w.state.shared.tree.matchingSubscribers publish.topicName = some subscribers →
      ∀ sub ∈ subscribers, M.found sender publish sub)
    (hstep : w.step l = some w') : w'.Within M := by
  obtain ⟨state, hstate, rfl⟩ := step_eq_some.mp hstep
  rcases step_cases hstate with ⟨n, e, todo, rfl, hhandled⟩ |
    ⟨t, c, a, rest, sh, next, rfl, hacted⟩ | ⟨token, rfl, hfired⟩ | ⟨accept, rfl, rfl⟩ |
    ⟨secs, rfl, -, rfl⟩
  · obtain ⟨hclient, -, -⟩ := w.recordEvent_same (.connection n) e
    have haccepted : state.history.accepted = w.state.history.accepted := by
      rw [hhandled.history]
      rfl
    refine ⟨?_, fun t' b hb => ?_, fun t' ch hch => ?_⟩
    · show state.shared.Within M (w.recordEvent _ e).client
      rw [hclient]
      exact h.shared.handled hhandled.handle
    · show b.Within M (state.history.accepted t')
      rw [haccepted]
      by_cases ht' : t' = .connection n
      · subst ht'
        have hb : b ∈ todo := by
          rw [hhandled.self] at hb
          exact hb
        exact h.shared.arises (hbrings n e rfl) (h.reader _)
          (Shared.arises_of_handle hhandled.handle) b hb
      · have hb : b ∈ (w.state.tasks t').todo := hhandled.others t' ht' ▸ hb
        exact h.todo t' b hb
    · show ∃ A, state.history.accepted t' = some A ∧ (w.recordEvent _ e).client ch = _
      rw [haccepted, hclient]
      refine h.reader t' ch ?_
      by_cases ht' : t' = .connection n
      · subst ht'
        rw [hhandled.self] at hch
        exact hch
      · exact hhandled.others t' ht' ▸ hch
  · have hrecord : w.record (.act t c) = w.recordAction t a := by
      simp only [record, hacted.todo]
    refine h.act hM binv hfiled hacted rfl (by rw [hrecord]) ?_
    intro publish sender subscribers heq hmatching
    exact hfinds t c publish sender rest subscribers rfl (heq ▸ hacted.todo) hmatching
  · have hdelay := h.shared.delays token hfired.waiting
    refine ⟨?_, fun t' b hb => ?_, fun t' ch hch => ?_⟩
    · show state.shared.Within M w.client
      rw [hfired.shared]
      exact h.shared.setDelay token fun hwaiting => by cases hwaiting
    · show b.Within M (state.history.accepted t')
      rw [hfired.history]
      by_cases ht' : t' = .delay token
      · subst ht'
        rw [hfired.self] at hb
        rw [List.mem_singleton.mp hb]
        exact hdelay
      · have hb : b ∈ (w.state.tasks t').todo := hfired.others t' ht' ▸ hb
        exact h.todo t' b hb
    · show ∃ A, state.history.accepted t' = some A ∧ w.client ch = _
      rw [hfired.history]
      refine h.reader t' ch ?_
      by_cases ht' : t' = .delay token
      · subst ht'
        rw [hfired.self] at hch
        exact hch
      · exact hfired.others t' ht' ▸ hch
  · exact ⟨⟨h.shared.sessions, h.shared.channels, h.shared.delays⟩, h.todo, h.reader⟩
  · exact ⟨⟨h.shared.sessions, h.shared.channels, h.shared.delays⟩, h.todo, h.reader⟩

end

end Traffic

end Broker
end Vaux
