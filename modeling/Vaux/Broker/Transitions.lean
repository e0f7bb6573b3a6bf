import Vaux.Broker.System

/-!
# What an action does

`perform` as a relation, with a case for each way in which an action can go.  It says all
that an action does, so that what is preserved by the actions is proved by going through
these cases, with the state behind the action in full.
-/

namespace Vaux
namespace Broker

open Wire Mqtt Machine

namespace Shared

/-- The action `a` of the task `t` leads to a state and to how the task goes on. -/
inductive Performed (sh : Shared) (t : TaskId) (c : Choice) : Action → Shared → Next → Prop where
  | negotiate (connect : Connect) (hfree : sh.poolWriter = none) :
      Performed sh t c (.negotiate connect) sh
        (.go [.enterPool (Broker.negotiate sh.pool connect c.uuid)])
  | reject (a : Admission) (hfree : sh.poolFree = true) (hrejects : sh.rejects a = true) :
      Performed sh t c (.enterPool a) sh
        (.go [.write (.connAck { a.ack with reason := .quotaExceeded }), .shutdown])
  | enter (a : Admission) (hfree : sh.poolFree = true) (hrejects : sh.rejects a = false) :
      Performed sh t c (.enterPool a) { (sh.choose a).1 with poolWriter := some t }
        (.go [(sh.choose a).2])
  | lockOld (ref : Ref) (a : Admission) (target : Option Ref) :
      Performed sh t c (.lockOld ref a target) { sh with sending := some ref }
        (.go [.disconnectOld ref a target])
  | oldClosed (ref : Ref) (a : Admission) (target : Option Ref)
      (hclosed : (sh.channels (sh.sessions ref).control).closed = true) :
      Performed sh t c (.disconnectOld ref a target) { sh with sending := none }
        (.go [.settle a target])
  | oldSent (ref : Ref) (a : Admission) (target : Option Ref)
      (hopen : (sh.channels (sh.sessions ref).control).closed = false)
      (hroom : (sh.channels (sh.sessions ref).control).queue.length <
        (sh.channels (sh.sessions ref).control).capacity) :
      Performed sh t c (.disconnectOld ref a target)
        { sh.push (sh.sessions ref).control (.disconnect .sessionTakeOver) with sending := none }
        (.go [.settle a target])
  | settle (a : Admission) (target : Option Ref) :
      Performed sh t c (.settle a target) sh (.go [.enroll a target])
  | register (a : Admission) :
      Performed sh t c (.enroll a none) { sh.register a with poolWriter := none }
        (.go [.grantExpiry sh.nextRef a.sessionExpiry, .write (.connAck a.ack),
          .openSession sh.nextRef])
  | adopt (a : Admission) (ref : Ref) :
      Performed sh t c (.enroll a (some ref)) { sh.adopt a ref with poolWriter := none }
        (.go [.grantExpiry ref a.sessionExpiry, .write (.connAck (a.ack.setSessionPresent true)),
          .openSession ref])
  | grantExpiry (ref : Ref) (expiry : Nat) (hwritable : sh.writable ref = true) :
      Performed sh t c (.grantExpiry ref (some expiry))
        (sh.setSession ref ((sh.sessions ref).setSessionExpiry expiry)) (.go [])
  | keepExpiry (ref : Ref) (hwritable : sh.writable ref = true) :
      Performed sh t c (.grantExpiry ref none) sh (.go [])
  | openSession (ref : Ref) (hwritable : sh.writable ref = true)
      (horder : c.order.Perm (sh.sessions ref).pending) :
      Performed sh t c (.openSession ref)
        (sh.setSession ref (sh.sessions ref).takeControlReceiver.2.drainPending)
        (.opened (sh.sessions ref).takeControlReceiver.2.keepAlive
          (sh.sessions ref).takeControlReceiver.1 (redelivery ref c.order ++ [.acceptSession ref]))
  | track (ref : Ref) (packetId : UInt16) (publish : Publish) (hwritable : sh.writable ref = true) :
      Performed sh t c (.track ref packetId publish)
        (sh.setSession ref ((sh.sessions ref).trackQosPublish packetId publish)) (.go [])
  | acceptSession (ref : Ref) : Performed sh t c (.acceptSession ref) sh (.accepted ref)
  | write (packet : Packet) (hok : c.ok = true) : Performed sh t c (.write packet) sh (.go [])
  | writeFails (packet : Packet) (hok : c.ok = false) :
      Performed sh t c (.write packet) sh (.returned (.error .stream))
  | shutdown (hok : c.ok = true) : Performed sh t c .shutdown sh (.go [])
  | shutdownFails (hok : c.ok = false) :
      Performed sh t c .shutdown sh (.returned (.error .stream))
  | noWill (ref : Ref) (hwritable : sh.writable ref = true)
      (hwill : (sh.sessions ref).willMessage = none) :
      Performed sh t c (.takeWill ref) (sh.setSession ref (sh.sessions ref).takeWill.2) (.go [])
  | publishWill (ref : Ref) (will : WillMessage) (hwritable : sh.writable ref = true)
      (hwill : (sh.sessions ref).willMessage = some will) (hdelay : will.header.willDelay.getD 0 = 0) :
      Performed sh t c (.takeWill ref) (sh.setSession ref (sh.sessions ref).takeWill.2)
        (.go [.route (willPublish will) ""])
  | delayWill (ref : Ref) (will : WillMessage) (hwritable : sh.writable ref = true)
      (hwill : (sh.sessions ref).willMessage = some will) (hdelay : will.header.willDelay.getD 0 ≠ 0) :
      Performed sh t c (.takeWill ref)
        { sh.setSession ref (sh.sessions ref).takeWill.2 with
          delays := Function.update sh.delays sh.nextToken { will, cancelled := false, waiting := true }
          nextToken := sh.nextToken + 1 }
        (.go [.setPendingWill ref sh.nextToken])
  | setPendingWill (ref : Ref) (token : Token) (hwritable : sh.writable ref = true) :
      Performed sh t c (.setPendingWill ref token)
        ((sh.cancel (sh.sessions ref).pendingWill).setSession ref
          ((sh.sessions ref).setPendingWill token).2) (.go [])
  | clearWill (ref : Ref) (hwritable : sh.writable ref = true) :
      Performed sh t c (.clearWill ref) (sh.setSession ref (sh.sessions ref).clearWill) (.go [])
  | acknowledge (ref : Ref) (packetId : UInt16) (hwritable : sh.writable ref = true) :
      Performed sh t c (.acknowledge ref packetId)
        (sh.setSession ref ((sh.sessions ref).acknowledge packetId).2) (.go [])
  | deactivate (sessionId : String) (hfree : sh.poolFree = true) :
      Performed sh t c (.deactivate sessionId)
        { sh with
          pool := (sh.pool.deactivate sh.sessions sessionId).1
          sessions := (sh.pool.deactivate sh.sessions sessionId).2 } (.go [])
  | subscribe (sessionId : String) (p : Subscribe) (tree : TopicTree)
      (hsubscribe : subscribeAll sessionId sh.tree p.filter = some tree) :
      Performed sh t c (.subscribe sessionId p) { sh with tree }
        (.go [.write (.subAck
          { ((SubAck.newWithPacketId p.packetId).toOption.getD .default) with
            reasonCodes := ((SubAck.newWithPacketId p.packetId).toOption.getD .default).reasonCodes ++
              p.filter.map fun f => grantedReason f.qos })])
  | unsubscribe (sessionId : String) (p : Unsubscribe) (tree : TopicTree) (reasons : List Reason)
      (hunsubscribe : unsubscribeAll sessionId sh.tree p.topics = some (tree, reasons)) :
      Performed sh t c (.unsubscribe sessionId p) { sh with tree }
        (.go [.write (.unsubAck
          { UnsubAck.default with packetId := p.packetId, reasonCode := reasons })])
  | route (publish : Publish) (sender : String) (subscribers : List Subscriber)
      (hmatching : sh.tree.matchingSubscribers publish.topicName = some subscribers) :
      Performed sh t c (.route publish sender) sh
        (.go (.lockPool :: subscribers.map (.deliver publish sender) ++ [.leavePool]))
  | lockPool (hfree : sh.poolWriter = none) :
      Performed sh t c .lockPool { sh with poolReaders := t :: sh.poolReaders } (.go [])
  | deliver (publish : Publish) (sender : String) (sub : Subscriber) (sh' : Shared)
      (hdeliver : sh.deliver publish sender sub = some sh') :
      Performed sh t c (.deliver publish sender sub) sh' (.go [])
  | leavePool :
      Performed sh t c .leavePool { sh with poolReaders := sh.poolReaders.erase t } (.go [])
  | finish (result : Except BrokerError Unit) : Performed sh t c (.finish result) sh (.returned result)

section

variable {sh sh' : Shared} {t : TaskId} {c : Choice} {a : Action} {next : Next}

theorem performed_of_some {r : Shared × Next} (h : some r = some (sh', next))
    (hr : Performed sh t c a r.1 r.2) : Performed sh t c a sh' next := by
  cases h
  exact hr

/-- An action that waits for a condition. -/
theorem performed_of_if {p : Prop} [Decidable p] {r : Shared × Next}
    (h : (if p then some r else none) = some (sh', next))
    (hr : p → Performed sh t c a r.1 r.2) : Performed sh t c a sh' next := by
  split at h
  · rename_i hp
    exact performed_of_some h (hr hp)
  · cases h

theorem performed_of_perform (h : sh.perform t c a = some (sh', next)) :
    Performed sh t c a sh' next := by
  cases a with
  | negotiate connect =>
      exact performed_of_if h fun hfree => .negotiate connect (Option.isNone_iff_eq_none.mp hfree)
  | enterPool a =>
      simp only [perform, enterPool] at h
      split at h
      · rename_i hfree
        split at h
        · rename_i hrejects
          exact performed_of_some h (.reject a hfree hrejects)
        · rename_i hrejects
          exact performed_of_some h (.enter a hfree (Bool.eq_false_iff.mpr hrejects))
      · cases h
  | lockOld ref a target => exact performed_of_some h (.lockOld ref a target)
  | disconnectOld ref a target =>
      simp only [perform, disconnectOld, trySend] at h
      split at h
      · rename_i hclosed
        exact performed_of_some h (.oldClosed ref a target hclosed)
      · rename_i hopen
        split at h
        · rename_i hroom
          exact performed_of_some h (.oldSent ref a target (Bool.eq_false_iff.mpr hopen) hroom)
        · cases h
  | settle a target => exact performed_of_some h (.settle a target)
  | enroll a target =>
      cases target with
      | none => exact performed_of_some h (.register a)
      | some ref => exact performed_of_some h (.adopt a ref)
  | grantExpiry ref expiry =>
      cases expiry with
      | none => exact performed_of_if h fun hwritable => .keepExpiry ref hwritable
      | some expiry => exact performed_of_if h fun hwritable => .grantExpiry ref expiry hwritable
  | openSession ref => exact performed_of_if h fun hopen => .openSession ref hopen.1 hopen.2
  | track ref packetId publish =>
      exact performed_of_if h fun hwritable => .track ref packetId publish hwritable
  | acceptSession ref => exact performed_of_some h (.acceptSession ref)
  | write packet =>
      simp only [perform] at h
      split at h
      · rename_i hok
        exact performed_of_some h (.write packet hok)
      · rename_i hok
        exact performed_of_some h (.writeFails packet (Bool.eq_false_iff.mpr hok))
  | shutdown =>
      simp only [perform] at h
      split at h
      · rename_i hok
        exact performed_of_some h (.shutdown hok)
      · rename_i hok
        exact performed_of_some h (.shutdownFails (Bool.eq_false_iff.mpr hok))
  | takeWill ref =>
      refine performed_of_if h fun hwritable => ?_
      cases hwill : (sh.sessions ref).willMessage with
      | none =>
          simp only [initiateWill]
          exact .noWill ref hwritable hwill
      | some will =>
          simp only [initiateWill]
          by_cases hdelay : will.header.willDelay.getD 0 = 0
          · simp only [if_pos hdelay]
            exact .publishWill ref will hwritable hwill hdelay
          · simp only [if_neg hdelay]
            exact .delayWill ref will hwritable hwill hdelay
  | setPendingWill ref token =>
      exact performed_of_if h fun hwritable => .setPendingWill ref token hwritable
  | clearWill ref => exact performed_of_if h fun hwritable => .clearWill ref hwritable
  | acknowledge ref packetId =>
      exact performed_of_if h fun hwritable => .acknowledge ref packetId hwritable
  | deactivate sessionId => exact performed_of_if h fun hfree => .deactivate sessionId hfree
  | subscribe sessionId p =>
      obtain ⟨⟨subscribed, suback⟩, hsub, heq⟩ := Option.map_eq_some_iff.mp h
      obtain ⟨tree, htree, hr⟩ := Option.bind_eq_some_iff.mp hsub
      cases heq
      cases hr
      exact .subscribe sessionId p tree htree
  | unsubscribe sessionId p =>
      obtain ⟨⟨unsubscribed, unsuback⟩, hunsub, heq⟩ := Option.map_eq_some_iff.mp h
      obtain ⟨⟨tree, reasons⟩, htree, hr⟩ := Option.bind_eq_some_iff.mp hunsub
      cases heq
      cases hr
      exact .unsubscribe sessionId p tree reasons htree
  | route publish sender =>
      obtain ⟨subscribers, hmatching, heq⟩ := Option.map_eq_some_iff.mp h
      cases heq
      exact .route publish sender subscribers hmatching
  | lockPool => exact performed_of_if h fun hfree => .lockPool (Option.isNone_iff_eq_none.mp hfree)
  | deliver publish sender sub =>
      obtain ⟨delivered, hdeliver, heq⟩ := Option.map_eq_some_iff.mp h
      cases heq
      exact .deliver publish sender sub _ hdeliver
  | leavePool => exact performed_of_some h .leavePool
  | finish result => exact performed_of_some h (.finish result)

/-! ## Deliveries -/

/-- Whether there is room does not depend on the message. -/
theorem trySend_cases (sh : Shared) (ch : ChannelId) :
    ((sh.channels ch).closed = false ∧ (sh.channels ch).queue.length < (sh.channels ch).capacity ∧
        ∀ msg, sh.trySend ch msg = some (sh.push ch msg)) ∨
      ∀ msg, sh.trySend ch msg = none := by
  unfold trySend
  by_cases hclosed : (sh.channels ch).closed = true
  · exact .inr fun msg => if_pos hclosed
  · by_cases hroom : (sh.channels ch).queue.length < (sh.channels ch).capacity
    · refine .inl ⟨Bool.eq_false_iff.mpr hclosed, hroom, fun msg => ?_⟩
      rw [if_neg hclosed, if_pos hroom]
    · refine .inr fun msg => ?_
      rw [if_neg hclosed, if_neg hroom]

/-- The body of the loop of `route_publish` as a relation.  The Disconnect that follows a
failed send finds the channel as the send did. -/
inductive Delivered (sh : Shared) (publish : Publish) (sender : String) (sub : Subscriber) :
    Shared → Prop where
  | own (hnoLocal : sub.noLocal = true) (hown : sub.sessionId = sender) :
      Delivered sh publish sender sub sh
  | absent (hactive : sh.pool.getActive sub.sessionId = none) : Delivered sh publish sender sub sh
  | sent (ref : Ref) (out : Publish) (target : Session)
      (hactive : sh.pool.getActive sub.sessionId = some ref)
      (hover : handOver publish sub.qos (sh.sessions ref) = .ok (out, target))
      (hopen : (sh.channels target.control).closed = false)
      (hroom : (sh.channels target.control).queue.length < (sh.channels target.control).capacity) :
      Delivered sh publish sender sub ((sh.setSession ref target).push target.control (.deliver out))
  | dropped (ref : Ref) (out : Publish) (target : Session)
      (hactive : sh.pool.getActive sub.sessionId = some ref)
      (hover : handOver publish sub.qos (sh.sessions ref) = .ok (out, target)) :
      Delivered sh publish sender sub (sh.setSession ref target)

theorem delivered_of_deliver {publish : Publish} {sender : String} {sub : Subscriber}
    (h : sh.deliver publish sender sub = some sh') : Delivered sh publish sender sub sh' := by
  unfold deliver at h
  split at h
  · rename_i hown
    cases h
    exact .own hown.1 hown.2
  · split at h
    · rename_i hactive
      cases h
      exact .absent hactive
    · rename_i ref hactive
      split at h
      · rename_i out target hover
        rcases trySend_cases (sh.setSession ref target) target.control with
          ⟨hopen, hroom, hsend⟩ | hfull
        · simp only [hsend, Option.some.injEq] at h
          subst h
          exact .sent ref out target hactive hover hopen hroom
        · simp only [hfull, Option.getD_none, Option.some.injEq] at h
          subst h
          exact .dropped ref out target hactive hover
      · cases h

/-! ## Events -/

/-- An event changes no more than the channel that a message is taken from. -/
theorem handle_shared {task : Task} {e : Event} {todo : List Action}
    (h : sh.handle task e = some (sh', todo)) :
    sh' = sh ∨ ∃ ch msg queue, e = .control ∧ task.sessionControl = some ch ∧
      (sh.channels ch).queue = msg :: queue ∧ sh' = sh.setChannel ch { sh.channels ch with queue } := by
  cases e with
  | control =>
      simp only [handle, Option.bind_eq_bind, Option.bind_eq_some_iff] at h
      obtain ⟨ch, hch, h⟩ := h
      split at h
      · cases h
      · rename_i msg queue hqueue
        cases h
        exact .inr ⟨ch, msg, queue, rfl, hch, hqueue, rfl⟩
  | keepAliveExpired =>
      simp only [handle] at h
      split at h <;> cases h <;> exact .inl rfl
  | packet p =>
      simp only [handle] at h
      split at h
      · split at h
        · obtain ⟨todo', -, heq⟩ := Option.map_eq_some_iff.mp h
          cases heq
          exact .inl rfl
        · cases h
          exact .inl rfl
      · cases h
        exact .inl rfl
  | endOfStream =>
      cases h
      exact .inl rfl
  | readError =>
      cases h
      exact .inl rfl

end

end Shared

/-! ## Steps -/

/-- The task `t` performs its action `a`. -/
structure Acted (s : State) (t : TaskId) (c : Choice) (s' : State) (a : Action) (rest : List Action)
    (sh : Shared) (next : Next) : Prop where
  todo : (s.tasks t).todo = a :: rest
  perform : s.shared.perform t c a = some (sh, next)
  performed : Shared.Performed s.shared t c a sh next
  shared : s'.shared = sh.afterNext (s.tasks t) next
  self : s'.tasks t = (s.tasks t).after rest next
  others : ∀ t', t' ≠ t → s'.tasks t' = s.tasks t'
  history : s'.history = (s.history.recordAction s.shared t a).recordNext t next

/-- The task `t` has an event. -/
structure Handled (s : State) (t : TaskId) (e : Event) (s' : State) (todo : List Action) : Prop where
  ready : (s.tasks t).todo = []
  running : (s.tasks t).result = none
  handle : s.shared.handle (s.tasks t) e = some (s'.shared, todo)
  self : s'.tasks t = { s.tasks t with todo }
  others : ∀ t', t' ≠ t → s'.tasks t' = s.tasks t'
  history : s'.history = s.history.recordEvent s.shared t (s.tasks t) e

/-- The timer of a delayed will runs out. -/
structure Fired (s : State) (token : Token) (s' : State) : Prop where
  known : token < s.shared.nextToken
  waiting : (s.shared.delays token).waiting = true
  live : (s.shared.delays token).cancelled = false
  shared : s'.shared =
    { s.shared with
      delays := Function.update s.shared.delays token
        { s.shared.delays token with waiting := false } }
  self : s'.tasks (.delay token) =
    { s.tasks (.delay token) with
      todo := [.route (Shared.willPublish (s.shared.delays token).will) ""] }
  others : ∀ t', t' ≠ .delay token → s'.tasks t' = s.tasks t'
  history : s'.history = s.history

section

variable {s s' : State} {t : TaskId} {c : Choice} {e : Event} {token : Token}

theorem acted_of_act (h : s.act t c = some s') : ∃ a rest sh next, Acted s t c s' a rest sh next := by
  unfold State.act at h
  split at h
  · cases h
  · rename_i a rest htodo
    obtain ⟨⟨sh, next⟩, hperform, rfl⟩ := Option.map_eq_some_iff.mp h
    exact ⟨a, rest, sh, next, htodo, hperform, Shared.performed_of_perform hperform, rfl,
      Function.update_self .., fun t' ht' => Function.update_of_ne ht' .., rfl⟩

theorem handled_of_event (h : s.event t e = some s') : ∃ todo, Handled s t e s' todo := by
  unfold State.event at h
  split at h
  · rename_i hready
    rw [Bool.and_eq_true, List.isEmpty_iff, Option.isNone_iff_eq_none] at hready
    obtain ⟨⟨sh, todo⟩, hhandle, rfl⟩ := Option.map_eq_some_iff.mp h
    exact ⟨todo, hready.1, hready.2, hhandle, Function.update_self ..,
      fun t' ht' => Function.update_of_ne ht' .., rfl⟩
  · cases h

theorem fired_of_fire (h : s.fire token = some s') : Fired s token s' := by
  unfold State.fire at h
  simp only at h
  split at h
  · rename_i hlive
    cases h
    exact ⟨hlive.1, hlive.2.1, Bool.eq_false_iff.mpr hlive.2.2, rfl, Function.update_self ..,
      fun t' ht' => Function.update_of_ne ht' .., rfl⟩
  · cases h

/-- What a step can be. -/
theorem step_cases {l : Label} (h : s.step l = some s') :
    (∃ n e todo, l = .event n e ∧ Handled s (.connection n) e s' todo) ∨
      (∃ t c a rest sh next, l = .act t c ∧ Acted s t c s' a rest sh next) ∨
      (∃ token, l = .fire token ∧ Fired s token s') ∨
      (∃ accept, l = .setAccepting accept ∧
        s' = { s with shared := { s.shared with acceptConnections := accept } }) ∨
      ∃ secs, l = .setSessionExpiry secs ∧ s.shared.poolFree = true ∧
        s' = { s with shared := { s.shared with pool := s.shared.pool.setSessionExpiry secs } } := by
  cases l with
  | event n e =>
      obtain ⟨todo, hhandled⟩ := handled_of_event h
      exact .inl ⟨n, e, todo, rfl, hhandled⟩
  | act t c =>
      obtain ⟨a, rest, sh, next, hacted⟩ := acted_of_act h
      exact .inr (.inl ⟨t, c, a, rest, sh, next, rfl, hacted⟩)
  | fire token => exact .inr (.inr (.inl ⟨token, rfl, fired_of_fire h⟩))
  | setAccepting accept =>
      cases h
      exact .inr (.inr (.inr (.inl ⟨accept, rfl, rfl⟩)))
  | setSessionExpiry secs =>
      simp only [State.step] at h
      split at h
      · rename_i hfree
        cases h
        exact .inr (.inr (.inr (.inr ⟨secs, rfl, hfree, rfl⟩)))
      · cases h

end

end Broker
end Vaux
