import Vaux.Client.Task

/-!
# What reaches the consumers

Reads wait while a packet is held, so that the packets of a channel stay in order.  A task
that ends drops the packet that it holds.
-/

namespace Vaux
namespace Client

open Wire Mqtt Machine

namespace Task

/-- The held packet if it is bound for the channel. -/
def heldFor (t : Task) (ch : Nat) : List Packet :=
  t.pendingForward.toList.filter fun packet => t.senders.channelOf packet = ch

/-- What was put in the channel the consumer has taken out, in order, or it is still there. -/
def Passed (t : Task) (ch : Nat) : Prop :=
  (t.entered ch).map Prod.snd = t.taken ch ++ (t.consumers ch).queue

/-- What the task has put in the channel and what is held for it is what `handle_packet` has
returned for it. -/
def Accounted (t : Task) (ch : Nat) : Prop :=
  t.enqueued ch ++ t.heldFor ch = t.returned.filter fun packet => t.senders.channelOf packet = ch

structure HandedOut (t : Task) (ch : Nat) : Prop where
  passed : t.Passed ch
  accounted : t.Accounted ch

/-- Nothing has been read or handed out. -/
structure SameHands (t t' : Task) : Prop where
  senders : t'.senders = t.senders
  consumers : t'.consumers = t.consumers
  pending : t'.pendingForward = t.pendingForward
  entered : t'.entered = t.entered
  taken : t'.taken = t.taken
  returned : t'.returned = t.returned
  acknowledged : t'.acknowledged = t.acknowledged

/-- A step of a consumer, or of somebody else who has the channel. -/
structure ByOthers (t t' : Task) : Prop where
  eq : ∃ consumers entered taken, t' = { t with consumers, entered, taken }
  enqueued : t'.enqueued = t.enqueued
  passed : ∀ ch, t.Passed ch → t'.Passed ch

section

variable {t t' : Task} {turn : Turn} {packet : Packet} {ok : Bool} {ch : Nat}

theorem SameHands.refl (t : Task) : t.SameHands t := ⟨rfl, rfl, rfl, rfl, rfl, rfl, rfl⟩

theorem SameHands.trans {t'' : Task} (h : t.SameHands t') (h' : t'.SameHands t'') : t.SameHands t'' :=
  ⟨h'.senders.trans h.senders, h'.consumers.trans h.consumers, h'.pending.trans h.pending,
    h'.entered.trans h.entered, h'.taken.trans h.taken, h'.returned.trans h.returned,
    h'.acknowledged.trans h.acknowledged⟩

theorem SameHands.enqueued (h : t.SameHands t') : t'.enqueued = t.enqueued := by
  unfold Task.enqueued
  rw [h.entered]

theorem SameHands.passed (h : t.SameHands t') (hpassed : t.Passed ch) : t'.Passed ch := by
  unfold Passed at *
  rw [h.entered, h.taken, h.consumers]
  exact hpassed

theorem SameHands.accounted (h : t.SameHands t') (hout : t.Accounted ch) : t'.Accounted ch := by
  unfold Accounted heldFor at *
  rw [h.senders, h.pending, h.enqueued, h.returned]
  exact hout

theorem sameHands_fail (t : Task) (e : MqttError) : t.SameHands (t.fail e) :=
  ⟨rfl, rfl, rfl, rfl, rfl, rfl, rfl⟩

theorem sameHands_checkConnected (t : Task) : t.SameHands t.checkConnected := by
  unfold checkConnected
  split <;> exact ⟨rfl, rfl, rfl, rfl, rfl, rfl, rfl⟩

theorem sameHands_write {reply : Reply (Option Packet)} (h : t.write reply = some t') :
    t.SameHands t' := by
  obtain ⟨⟨t₁, out⟩, happly, rfl⟩ := Option.map_eq_some_iff.mp h
  have hsame : t.SameHands t₁ := by
    unfold apply at happly
    split at happly <;> cases happly <;> exact ⟨rfl, rfl, rfl, rfl, rfl, rfl, rfl⟩
  cases out with
  | ok => exact hsame.trans (sameHands_checkConnected t₁)
  | error e => exact hsame.trans (sameHands_fail t₁ e)

/-! ## Channels -/

theorem queue_of_trySend {consumer consumer' : Consumer}
    (h : consumer.trySend packet = .ok consumer') :
    consumer'.queue = consumer.queue ++ [packet] := by
  unfold Consumer.trySend at h
  split at h
  · cases h
  · split at h
    · cases h
      rfl
    · cases h

theorem Passed.enter {origin : Origin} {ch' : Nat} {consumer : Consumer} (h : t.Passed ch)
    (hroom : (t.consumers ch').trySend packet = .ok consumer) :
    (t.enter origin ch' consumer packet).Passed ch := by
  unfold Passed at *
  simp only [Task.enter]
  by_cases hch : ch = ch'
  · subst hch
    rw [Function.update_self, Function.update_self, List.map_append, h, queue_of_trySend hroom,
      List.append_assoc]
    rfl
  · rw [Function.update_of_ne hch, Function.update_of_ne hch]
    exact h

theorem enqueued_enter_task {ch' : Nat} {consumer : Consumer} :
    (t.enter .task ch' consumer packet).enqueued =
      Function.update t.enqueued ch' (t.enqueued ch' ++ [packet]) := by
  funext ch
  unfold enqueued
  simp only [Task.enter]
  by_cases hch : ch = ch'
  · subst hch
    rw [Function.update_self, Function.update_self, List.filter_append, List.map_append]
    rfl
  · rw [Function.update_of_ne hch, Function.update_of_ne hch]

theorem enqueued_enter_other {ch' : Nat} {consumer : Consumer} :
    (t.enter .other ch' consumer packet).enqueued = t.enqueued := by
  funext ch
  unfold enqueued
  simp only [Task.enter]
  by_cases hch : ch = ch'
  · subst hch
    rw [Function.update_self, List.filter_append, List.map_append]
    exact List.append_nil _
  · rw [Function.update_of_ne hch]

theorem byOthers_of_consume {queue : List Packet} (hqueue : (t.consumers ch).queue = packet :: queue) :
    t.ByOthers
      { t with
        consumers := Function.update t.consumers ch { t.consumers ch with queue }
        taken := Function.update t.taken ch (t.taken ch ++ [packet]) } := by
  refine ⟨⟨_, _, _, rfl⟩, rfl, fun ch' h => ?_⟩
  unfold Passed at *
  by_cases hch : ch' = ch
  · subst hch
    simp only [Function.update_self]
    rw [h, hqueue, List.append_assoc]
    rfl
  · simp only [Function.update_of_ne hch]
    exact h

theorem byOthers_of_drop :
    t.ByOthers
      { t with
        consumers := Function.update t.consumers ch { t.consumers ch with closed := true } } := by
  refine ⟨⟨_, _, _, rfl⟩, rfl, fun ch' h => ?_⟩
  unfold Passed at *
  by_cases hch : ch' = ch
  · subst hch
    simp only [Function.update_self]
    exact h
  · simp only [Function.update_of_ne hch]
    exact h

theorem byOthers_of_enter {consumer : Consumer}
    (hroom : (t.consumers ch).trySend packet = .ok consumer) :
    t.ByOthers (t.enter .other ch consumer packet) :=
  ⟨⟨_, _, _, rfl⟩, enqueued_enter_other, fun _ h => h.enter hroom⟩

theorem ByOthers.session (h : t.ByOthers t') : t'.session = t.session := by
  obtain ⟨consumers, entered, taken, rfl⟩ := h.eq
  rfl

theorem ByOthers.result (h : t.ByOthers t') : t'.result = t.result := by
  obtain ⟨consumers, entered, taken, rfl⟩ := h.eq
  rfl

theorem closed_of_trySend {consumer : Consumer} (h : consumer.trySend packet = .error .closed) :
    consumer.closed = true := by
  unfold Consumer.trySend at h
  split at h
  · assumption
  · split at h <;> cases h

/-! ## Turns -/

/-- What a packet that is read comes to. -/
inductive Handed (t : Task) (packet : Packet) (t' : Task) : Prop where
  | enqueued (consumer : Consumer)
      (room : (t.consumers (t.senders.channelOf packet)).trySend packet = .ok consumer)
      (eq : t' = t.enqueue (t.senders.channelOf packet) consumer packet)
  | held (eq : t' = { t with pendingForward := some packet })
  | lost (closed : (t.consumers (t.senders.channelOf packet)).closed = true)
      (eq : t' = t.fail channelClosed)

theorem handed_handOut (t : Task) (packet : Packet) : t.Handed packet (t.handOut packet) := by
  unfold handOut
  simp only
  split
  · rename_i consumer hroom
    exact .enqueued consumer hroom rfl
  · exact .held rfl
  · rename_i hclosed
    exact .lost (closed_of_trySend hclosed) rfl

theorem readNext_cases {r : Read} (h : t.readNext r ok = some t') :
    (∃ e, t' = t.fail e) ∨ ∃ packet t₁, r = .packet packet ∧
      t₁ = { t with
        session := (t.session.handlePacket ok packet).session
        acknowledged := t.acknowledged ++
          acknowledgedBy packet (t.session.handlePacket ok packet).sent } ∧
      ((∃ out, (t.session.handlePacket ok packet).result = .ok (some out) ∧
          t' = handOut { t₁ with returned := t₁.returned ++ [out] } out) ∨
        ((t.session.handlePacket ok packet).result = .ok none ∧ t' = t₁) ∨
        ∃ e, (t.session.handlePacket ok packet).result = .err e ∧ t' = t₁.fail e) := by
  cases r with
  | closed =>
      cases h
      exact .inl ⟨_, rfl⟩
  | error e =>
      cases h
      exact .inl ⟨e, rfl⟩
  | packet packet =>
      refine .inr ⟨packet, _, rfl, rfl, ?_⟩
      simp only [readNext, apply] at h
      split at h
      · rename_i out hout
        rw [Option.map_some, Option.some.injEq] at h
        cases out with
        | some out => exact .inl ⟨out, hout, h.symm⟩
        | none => exact .inr (.inl ⟨hout, h.symm⟩)
      · rename_i e herr
        rw [Option.map_some, Option.some.injEq] at h
        exact .inr (.inr ⟨e, herr, h.symm⟩)
      · cases h

/-- What a turn does to the packets on their way to a consumer. -/
inductive Turned (t : Task) (turn : Turn) (t' : Task) : Prop where
  | same (hands : t.SameHands t')
  | forwarded (packet : Packet) (consumer : Consumer) (turn : turn = .forward)
      (pending : t.pendingForward = some packet)
      (room : (t.consumers (t.senders.channelOf packet)).trySend packet = .ok consumer)
      (eq : t' = ({ t.enqueue (t.senders.channelOf packet) consumer packet with
        pendingForward := none }).checkConnected)
  | read (packet : Packet) (ok : Bool) (t₁ : Task) (turn : turn = .read (.packet packet) ok)
      (pending : t.pendingForward = none)
      (eq₁ : t₁ = { t with
        session := (t.session.handlePacket ok packet).session
        acknowledged := t.acknowledged ++
          acknowledgedBy packet (t.session.handlePacket ok packet).sent })
      (outcome : (∃ out, (t.session.handlePacket ok packet).result = .ok (some out) ∧
          t' = (handOut { t₁ with returned := t₁.returned ++ [out] } out).checkConnected) ∨
        ((t.session.handlePacket ok packet).result = .ok none ∧ t' = t₁.checkConnected) ∨
        ∃ e, (t.session.handlePacket ok packet).result = .err e ∧ t' = (t₁.fail e).checkConnected)

theorem turned_of_select (h : t.select turn = some t') : t.Turned turn t' := by
  cases turn with
  | keepAlive ok => exact .same (sameHands_write h)
  | forward =>
      obtain ⟨t₁, hforward, rfl⟩ := Option.map_eq_some_iff.mp h
      unfold forwardPending at hforward
      split at hforward
      · cases hforward
      · rename_i packet hpending
        simp only at hforward
        split at hforward
        · rename_i consumer hroom
          cases hforward
          exact .forwarded packet consumer rfl hpending hroom rfl
        · cases hforward
        · cases hforward
          exact .same ((sameHands_fail t _).trans (sameHands_checkConnected _))
  | read r ok =>
      simp only [select] at h
      split at h
      · rename_i hpending
        obtain ⟨t₁, hread, rfl⟩ := Option.map_eq_some_iff.mp h
        rcases readNext_cases hread with ⟨e, rfl⟩ | ⟨packet, t₂, rfl, heq, hcases⟩
        · exact .same ((sameHands_fail t e).trans (sameHands_checkConnected _))
        · refine .read packet ok t₂ rfl (Option.isNone_iff_eq_none.mp hpending) heq ?_
          rcases hcases with ⟨out, hout, rfl⟩ | ⟨hout, rfl⟩ | ⟨e, herr, rfl⟩
          · exact .inl ⟨out, hout, rfl⟩
          · exact .inr (.inl ⟨hout, rfl⟩)
          · exact .inr (.inr ⟨e, herr, rfl⟩)
      · cases h
  | outbound packet ok =>
      simp only [select] at h
      split at h
      · cases h
        exact .same (.refl t)
      · exact .same (sameHands_write h)
  | outboundClosed =>
      cases h
      exact .same (sameHands_fail t _)
  | _ => cases h

/-- A turn of the loop, or something that happens to a channel. -/
theorem step_cases (h : t.step turn = some t') :
    t.ByOthers t' ∨ t.result = none ∧ t.select turn = some t' := by
  cases turn with
  | consume ch =>
      simp only [step] at h
      split at h
      · cases h
      · rename_i packet queue hqueue
        cases h
        exact .inl (byOthers_of_consume hqueue)
  | drop ch =>
      cases h
      exact .inl byOthers_of_drop
  | other ch packet =>
      simp only [step] at h
      split at h
      · rename_i consumer hroom
        cases h
        exact .inl (byOthers_of_enter hroom)
      · cases h
  | _ =>
      simp only [step] at h
      split at h
      · rename_i hresult
        exact .inr ⟨Option.isNone_iff_eq_none.mp hresult, h⟩
      · cases h

/-! ## In order, none lost and none duplicated -/

theorem result_checkConnected (h : t.checkConnected.result = none) : t.result = none := by
  unfold checkConnected at h
  split at h
  · cases h
  · exact h

theorem heldFor_none (hpending : t.pendingForward = none) : t.heldFor ch = [] := by
  unfold heldFor
  rw [hpending]
  rfl

theorem Accounted.byOthers (h : t.Accounted ch) (hothers : t.ByOthers t') : t'.Accounted ch := by
  unfold Accounted
  rw [hothers.enqueued]
  obtain ⟨consumers, entered, taken, rfl⟩ := hothers.eq
  exact h

theorem Accounted.handOut (h : t.Accounted ch) (hpending : t.pendingForward = none)
    (hresult : (handOut { t with returned := t.returned ++ [packet] } packet).result = none) :
    (Task.handOut { t with returned := t.returned ++ [packet] } packet).Accounted ch := by
  have hout : t.enqueued ch = t.returned.filter fun packet => t.senders.channelOf packet = ch := by
    unfold Accounted at h
    rw [heldFor_none hpending, List.append_nil] at h
    exact h
  rcases handed_handOut { t with returned := t.returned ++ [packet] } packet with
    ⟨consumer, -, heq⟩ | heq | ⟨-, heq⟩
  · rw [heq]
    show (Task.enter _ .task _ consumer packet).enqueued ch ++ t.heldFor ch =
      (t.returned ++ [packet]).filter fun packet => t.senders.channelOf packet = ch
    rw [heldFor_none hpending, List.append_nil, enqueued_enter_task, List.filter_append, ← hout]
    show Function.update t.enqueued (t.senders.channelOf packet) (t.enqueued _ ++ [packet]) ch = _
    by_cases hch : ch = t.senders.channelOf packet
    · subst hch
      rw [Function.update_self, List.filter_cons_of_pos (by simp)]
      rfl
    · rw [Function.update_of_ne hch, List.filter_cons_of_neg (by simp [Ne.symm hch])]
      exact (List.append_nil _).symm
  · rw [heq]
    show t.enqueued ch ++ _ = (t.returned ++ [packet]).filter _
    rw [List.filter_append, ← hout]
    rfl
  · rw [heq] at hresult
    cases hresult

theorem Accounted.forwarded (h : t.Accounted ch) (hpending : t.pendingForward = some packet)
    (consumer : Consumer) :
    ({ t.enqueue (t.senders.channelOf packet) consumer packet with
      pendingForward := none } : Task).Accounted ch := by
  unfold Accounted at h
  rw [heldFor, hpending, Option.toList_some] at h
  show (t.enter .task _ consumer packet).enqueued ch ++ [] =
    t.returned.filter fun packet => t.senders.channelOf packet = ch
  rw [List.append_nil, enqueued_enter_task, ← h]
  by_cases hch : ch = t.senders.channelOf packet
  · subst hch
    rw [List.filter_cons_of_pos (by simp), List.filter_nil, Function.update_self]
  · rw [List.filter_cons_of_neg (by simp [Ne.symm hch]), List.filter_nil, List.append_nil,
      Function.update_of_ne hch]

theorem accounted_of_step (h : t.result = none → t.Accounted ch) (hstep : t.step turn = some t')
    (hresult : t'.result = none) : t'.Accounted ch := by
  rcases step_cases hstep with hothers | ⟨hrunning, hselect⟩
  · exact Accounted.byOthers (h (hothers.result ▸ hresult)) hothers
  · have hout := h hrunning
    cases turned_of_select hselect with
    | same hands => exact hands.accounted hout
    | forwarded packet consumer hturn hpending hroom heq =>
        rw [heq]
        exact (sameHands_checkConnected _).accounted (hout.forwarded hpending consumer)
    | read packet ok t₁ hturn hpending heq₁ outcome =>
        have hout₁ : t₁.Accounted ch := by
          rw [heq₁]
          exact hout
        have hpending₁ : t₁.pendingForward = none := by
          rw [heq₁]
          exact hpending
        rcases outcome with ⟨out, -, heq⟩ | ⟨-, heq⟩ | ⟨e, -, heq⟩
        · rw [heq] at hresult ⊢
          exact (sameHands_checkConnected _).accounted
            (hout₁.handOut hpending₁ (result_checkConnected hresult))
        · rw [heq]
          exact (sameHands_checkConnected _).accounted hout₁
        · rw [heq] at hresult
          cases result_checkConnected hresult

theorem passed_of_step (h : t.Passed ch) (hstep : t.step turn = some t') : t'.Passed ch := by
  rcases step_cases hstep with hothers | ⟨-, hselect⟩
  · exact hothers.passed ch h
  · cases turned_of_select hselect with
    | same hands => exact hands.passed h
    | forwarded packet consumer hturn hpending hroom heq =>
        rw [heq]
        exact (sameHands_checkConnected _).passed (h.enter hroom)
    | read packet ok t₁ hturn hpending heq₁ outcome =>
        have h₁ : t₁.Passed ch := by
          rw [heq₁]
          exact h
        rcases outcome with ⟨out, -, heq⟩ | ⟨-, heq⟩ | ⟨e, -, heq⟩
        · rw [heq]
          refine (sameHands_checkConnected _).passed ?_
          rcases handed_handOut { t₁ with returned := t₁.returned ++ [out] } out with
            ⟨consumer, hroom, heq⟩ | heq | ⟨-, heq⟩
          · rw [heq]
            exact Passed.enter h₁ hroom
          · rw [heq]
            exact h₁
          · rw [heq]
            exact h₁
        · rw [heq]
          exact (sameHands_checkConnected _).passed h₁
        · rw [heq]
          exact (sameHands_checkConnected _).passed h₁

variable {session : ClientSession} {senders : Senders} {consumers : Nat → Consumer}
  {turns : List Turn}

theorem accounted_start (session : ClientSession) (senders : Senders) (consumers : Nat → Consumer)
    (ch : Nat) : (Task.start session senders consumers).Accounted ch := by
  show (((consumers ch).queue.map fun packet => (Origin.other, packet)).filter _).map Prod.snd ++ _ = _
  rw [List.filter_eq_nil_iff.mpr (by simp)]
  rfl

/-- A channel is a queue, whoever else uses it. -/
theorem passed_of_run (hrun : run Task.step (.start session senders consumers) turns = some t)
    (ch : Nat) : t.Passed ch := by
  refine invariant (I := fun t => t.Passed ch) (fun t turn t' h hstep => passed_of_step h hstep) ?_ hrun
  show ((consumers ch).queue.map fun packet => (Origin.other, packet)).map Prod.snd = _
  rw [List.map_map]
  exact List.map_id _

/-- While the task runs, what it has put in a channel, followed by the packet that it holds
for the channel, is what `handle_packet` has returned for it; and what was put in the channel
its consumer takes out in order. -/
theorem handedOut_of_run (hrun : run Task.step (.start session senders consumers) turns = some t)
    (hrunning : t.result = none) (ch : Nat) : t.HandedOut ch := by
  refine ⟨passed_of_run hrun ch, ?_⟩
  refine invariant (I := fun t => t.result = none → t.Accounted ch) ?_ (fun _ => ?_) hrun hrunning
  · exact fun t turn t' h hstep => accounted_of_step h hstep
  · exact accounted_start session senders consumers ch

end

/-- A session whose connect has succeeded, with a consumer that has room for one packet. -/
def startNarrow : Task :=
  .start { ClientSession.newFromClient (.new "") with connected := true }
    { packetOut := 0, filterChannel := ∅ } fun _ => { queue := [], capacity := 1, closed := false }

/-- Two publishes of which the second one has to wait. -/
def heldTurns : List Turn :=
  [.read (.packet (.publish (publishOf .atLeastOnce (some 1)))) true,
    .read (.packet (.publish (publishOf .atLeastOnce (some 2)))) true]

theorem handedOut_of_heldTurns : ∃ t, run Task.step startNarrow heldTurns = some t ∧
    (t.consumers 0).queue = [.publish (publishOf .atLeastOnce (some 1))] ∧
      t.pendingForward = some (.publish (publishOf .atLeastOnce (some 2))) ∧ t.HandedOut 0 := by
  have hfacts : (run Task.step startNarrow heldTurns).map (fun t =>
      ((t.consumers 0).queue, t.pendingForward, t.result.isNone)) =
      some ([.publish (publishOf .atLeastOnce (some 1))],
        some (.publish (publishOf .atLeastOnce (some 2))), true) := by
    decide +kernel
  obtain ⟨t, hrun, ht⟩ := Option.map_eq_some_iff.mp hfacts
  simp only [Prod.mk.injEq] at ht
  obtain ⟨hqueue, hpending, hrunning⟩ := ht
  exact ⟨t, hrun, hqueue, hpending,
    handedOut_of_run hrun (Option.isNone_iff_eq_none.mp hrunning) 0⟩

/-! ## Acknowledged publishes -/

/-- A PUBLISH that is acknowledged. -/
def qosPublish : Packet → Bool
  | .publish p => p.qos = .ok .atLeastOnce || p.qos = .ok .exactlyOnce
  | _ => false

end Task

/-- The session acknowledges the packet by itself. -/
def ClientSession.willAcknowledge (self : ClientSession) : Packet → Bool
  | .publish p =>
    p.qos = .ok .exactlyOnce || (p.qos = .ok .atLeastOnce && self.qosRecvRemaining ≠ 0)
  | _ => false

namespace Task

/-- How many entries keep the publish. -/
def keeping (pending : PendingQos) (p : Publish) : Nat :=
  pending.entries.countP fun e => e.2.packet = some (.publish p)

/-- Each publish that was acknowledged has been put in its channel, is held for it or is kept
in the session, as often as it was. -/
def Retained (t : Task) (held : Option Packet) (pending : PendingQos) : Prop :=
  ∀ p, t.acknowledged.count p ≤
    (t.enqueued (t.senders.channelOf (.publish p))).count (.publish p) +
      held.toList.count (.publish p) + keeping pending p

/-- The turn stops the task. -/
def stops (t : Task) : Turn → Bool
  | .keepAlive ok => !ok
  | .outbound packet ok =>
    !(qosControl packet && t.session.autoAck) &&
      ((t.session.writeNext ok packet).result ≠ .ok none ||
        !(t.session.writeNext ok packet).session.connected)
  | .outboundClosed => true
  | _ => false

/-- The task does not stop while it holds a publish that was acknowledged, and no such
publish goes to a channel whose consumer is gone. -/
def Careful (t : Task) : Turn → Prop
  | .forward => ∀ packet ∈ t.pendingForward, qosPublish packet = true →
    (t.consumers (t.senders.channelOf packet)).closed = false
  | .read (.packet packet) ok => ok = true → t.session.willAcknowledge packet = true →
    (t.consumers (t.senders.channelOf packet)).closed = false
  | turn => t.stops turn = true → ∀ packet ∈ t.pendingForward, qosPublish packet = false

instance (t : Task) (turn : Turn) : Decidable (t.Careful turn) :=
  match turn with
  | .forward => inferInstanceAs (Decidable (∀ packet ∈ t.pendingForward, _ → _))
  | .read (.packet _) _ => inferInstanceAs (Decidable (_ → _ → _))
  | .read .closed _ | .read (.error _) _ | .keepAlive _ | .outbound .. | .outboundClosed
  | .consume _ | .drop _ | .other .. =>
    inferInstanceAs (Decidable (_ → ∀ packet ∈ t.pendingForward, _))

end Task

namespace ClientSession

section

variable {s : ClientSession} {packet : Packet} {ok : Bool}

theorem keeping_insert (m : PendingQos) (packetId : UInt16) {e : QoSPacketState} {p : Publish}
    (he : e.packet = some (.publish p)) : 0 < Task.keeping (m.insert packetId e) p := by
  refine List.countP_pos_iff.mpr ⟨⟨packetId, e⟩, ?_, by simp [he]⟩
  rw [AList.entries_insert]
  exact List.mem_cons_self

/-- What becomes of a packet that may have to be acknowledged. -/
inductive Taken (s : ClientSession) (ok : Bool) (packet : Packet) : Prop where
  | none (will : s.willAcknowledge packet = false)
      (sent : acknowledgedBy packet (s.handlePacket ok packet).sent = [])
  | passed (p : Publish) (eq : packet = .publish p) (will : s.willAcknowledge packet = true)
      (sent : acknowledgedBy packet (s.handlePacket ok packet).sent = [p]) (written : ok = true)
      (result : (s.handlePacket ok packet).result = .ok (some packet))
  | kept (p : Publish) (eq : packet = .publish p)
      (sent : acknowledgedBy packet (s.handlePacket ok packet).sent = [p])
      (result : ∃ e, (s.handlePacket ok packet).result = .err e)
      (kept : 0 < Task.keeping (s.handlePacket ok packet).session.pendingQosRecv p)
  | panic (result : (s.handlePacket ok packet).result = .panic)

theorem taken_handlePacket (hauto : s.autoAck = true) : s.Taken ok packet := by
  cases packet with
  | publish p =>
      have hqos : (∃ id, p.qos = .ok .atLeastOnce ∧ s.qosRecvRemaining ≠ 0 ∧ p.packetId = some id ∧
          s.handleRecvPublish ok p = s.recvQos1 ok p id) ∨
          (∃ id, p.qos = .ok .exactlyOnce ∧ p.packetId = some id ∧
            s.handleRecvPublish ok p = s.recvQos2 ok p id) ∨
          (s.handleRecvPublish ok p).result = .panic ∨
          s.willAcknowledge (.publish p) = false ∧ (s.handleRecvPublish ok p).sent = [] := by
        unfold handleRecvPublish
        split
        · rename_i hq
          exact .inr (.inr (.inr ⟨by simp [willAcknowledge, hq], rfl⟩))
        · rename_i hq
          split
          · rename_i hzero
            exact .inr (.inr (.inr ⟨by simp [willAcknowledge, hq, hzero], rfl⟩))
          · rename_i hzero
            split
            · rename_i id hid
              exact .inl ⟨id, hq, hzero, hid, rfl⟩
            · exact .inr (.inr (.inl rfl))
        · rename_i id hq hid
          exact .inr (.inl ⟨id, hq, hid, rfl⟩)
        · exact .inr (.inr (.inl rfl))
      rcases hqos with ⟨id, hq, hzero, hid, heq⟩ | ⟨id, hq, hid, heq⟩ | hpanic | ⟨hnot, hsent⟩
      · have hack : s.willAcknowledge (.publish p) = true := by simp [willAcknowledge, hq, hzero]
        cases ok with
        | true =>
            refine .passed p rfl hack ?_ rfl ?_
            · simp only [handlePacket, passOn, heq, recvQos1, insertRecv, hauto, if_true, acknowledgedBy]
            · simp only [handlePacket, passOn, heq, recvQos1, insertRecv, hauto, if_true]
              rfl
        | false =>
            refine .kept p rfl ?_ ?_ ?_
            · simp only [handlePacket, passOn, heq, recvQos1, insertRecv, hauto, if_true, acknowledgedBy]
            · simp only [handlePacket, passOn, heq, recvQos1, insertRecv, hauto, if_true]
              exact ⟨_, rfl⟩
            · simp only [handlePacket, passOn, heq, recvQos1, insertRecv, hauto, if_true]
              exact keeping_insert _ id rfl
      · have hack : s.willAcknowledge (.publish p) = true := by simp [willAcknowledge, hq]
        cases ok with
        | true =>
            refine .passed p rfl hack ?_ rfl ?_
            · simp only [handlePacket, passOn, heq, recvQos2_eq, hauto, if_true, acknowledgedBy]
            · simp only [handlePacket, passOn, heq, recvQos2_eq, hauto, if_true]
              rfl
        | false =>
            refine .kept p rfl ?_ ?_ ?_
            · simp only [handlePacket, passOn, heq, recvQos2_eq, hauto, if_true, acknowledgedBy]
            · simp only [handlePacket, passOn, heq, recvQos2_eq, hauto, if_true]
              exact ⟨_, rfl⟩
            · simp only [handlePacket, passOn, heq, recvQos2_eq, hauto, if_true]
              exact keeping_insert _ id rfl
      · refine .panic ?_
        simp only [handlePacket, passOn, hpanic]
        rfl
      · refine .none hnot ?_
        simp only [handlePacket, passOn, hsent, acknowledgedBy]
  | _ => exact .none rfl rfl

end

end ClientSession

namespace Task

/-- The state that the task returns. -/
def returnedState : Except ClientError SessionState → SessionState
  | .ok state => state
  | .error e => e.state

/-- Every publish that was acknowledged is still there. -/
def Survives (t : Task) : Prop :=
  match t.result with
  | none => t.Retained t.pendingForward t.session.pendingQosRecv
  | some r => t.Retained none (returnedState r).pendingQosRecv

/-- Besides, what was put in a channel its consumer takes out in order. -/
structure AtLeastOnce (t : Task) : Prop where
  passed : ∀ ch, t.Passed ch
  survives : t.Survives

/-- What holds while the task runs. -/
structure Running (t : Task) : Prop where
  autoAck : t.session.autoAck = true
  connected : t.session.connected = true
  out : ∀ ch, t.Accounted ch
  acknowledged : ∀ p, t.acknowledged.count p ≤ t.returned.count (.publish p)
  qos : ∀ p ∈ t.acknowledged, qosPublish (.publish p) = true

section

variable {t t' : Task} {turn : Turn} {packet : Packet} {ok : Bool} {ch : Nat}

theorem count_returned (p : Publish) (h : t.Accounted (t.senders.channelOf (.publish p))) :
    t.returned.count (.publish p) =
      (t.enqueued (t.senders.channelOf (.publish p))).count (.publish p) +
        t.pendingForward.toList.count (.publish p) := by
  have hcount := congrArg (List.count (.publish p)) h
  rw [List.count_append, heldFor, List.count_filter (by simp), List.count_filter (by simp)] at hcount
  exact hcount.symm

theorem Running.retained (h : t.Running) (pending : PendingQos) :
    t.Retained t.pendingForward pending := by
  intro p
  have hreturned := count_returned p (h.out _)
  have hacknowledged := h.acknowledged p
  omega

/-- What the task holds can be dropped if it was not acknowledged. -/
theorem Running.dropped (h : t.Running) (hheld : ∀ packet ∈ t.pendingForward, qosPublish packet = false)
    (pending : PendingQos) : t.Retained none pending := by
  intro p
  by_cases hmem : p ∈ t.acknowledged
  · have hnot : t.pendingForward.toList.count (.publish p) = 0 := by
      refine List.count_eq_zero.mpr fun hp => ?_
      have hfalse := hheld (.publish p) (by simpa using hp)
      rw [h.qos p hmem] at hfalse
      cases hfalse
    have hreturned := count_returned p (h.out _)
    have hacknowledged := h.acknowledged p
    omega
  · rw [List.count_eq_zero.mpr hmem]
    exact Nat.zero_le _

theorem SameHands.retained (h : t.SameHands t') {held : Option Packet} {pending : PendingQos}
    (hretained : t.Retained held pending) : t'.Retained held pending := by
  unfold Retained
  rw [h.acknowledged, h.enqueued, h.senders]
  exact hretained

theorem survives_of_result {r : Except ClientError SessionState} (hresult : t.result = some r)
    (h : t.Retained none (returnedState r).pendingQosRecv) : t.Survives := by
  unfold Survives
  rw [hresult]
  exact h

theorem Running.survives (h : t.Running) (hresult : t.result = none) : t.Survives := by
  unfold Survives
  rw [hresult]
  exact h.retained _

theorem Running.byOthers (h : t.Running) (hothers : t.ByOthers t') : t'.Running := by
  have hout : ∀ ch, t'.Accounted ch := fun ch => (h.out ch).byOthers hothers
  obtain ⟨consumers, entered, taken, rfl⟩ := hothers.eq
  exact ⟨h.autoAck, h.connected, hout, h.acknowledged, h.qos⟩

theorem Survives.byOthers (h : t.Survives) (hothers : t.ByOthers t') : t'.Survives := by
  have henqueued := hothers.enqueued
  obtain ⟨consumers, entered, taken, rfl⟩ := hothers.eq
  unfold Survives Retained at *
  rw [henqueued]
  exact h

/-- A turn after which the task runs on, or ends with what it held. -/
def Goes (t' : Task) : Prop := (t'.result = none → t'.Running) ∧ t'.Survives

theorem goes_of_result {r : Except ClientError SessionState} (hresult : t.result = some r)
    (h : t.Retained none (returnedState r).pendingQosRecv) : t.Goes :=
  ⟨fun hnone => (by rw [hresult] at hnone; cases hnone), survives_of_result hresult h⟩

theorem Running.goes (h : t.Running) (hresult : t.result = none) : t.Goes :=
  ⟨fun _ => h, h.survives hresult⟩

theorem Running.ends (h : t.Running) (hheld : ∀ packet ∈ t.pendingForward, qosPublish packet = false)
    (hsame : t.SameHands t') {r : Except ClientError SessionState} (hresult : t'.result = some r) :
    t'.Goes :=
  goes_of_result hresult (hsame.retained (h.dropped hheld _))

theorem checkConnected_of_connected (h : t.session.connected = true) : t.checkConnected = t := by
  simp [checkConnected, h]

theorem Running.write (h : t.Running) (hresult : t.result = none) {reply : Reply (Option Packet)}
    (hauto : reply.session.autoAck = true)
    (hheld : reply.result ≠ .ok none ∨ reply.session.connected = false →
      ∀ packet ∈ t.pendingForward, qosPublish packet = false)
    (hwrite : t.write reply = some t') : t'.Goes := by
  have hsame := sameHands_write hwrite
  obtain ⟨⟨t₁, out⟩, happly, heq⟩ := Option.map_eq_some_iff.mp hwrite
  unfold apply at happly
  cases hreply : reply.result with
  | ok out' =>
      rw [hreply] at happly
      cases happly
      cases hconnected : reply.session.connected with
      | true =>
          have heq' : t' = { t with session := reply.session } :=
            heq.symm.trans (checkConnected_of_connected hconnected)
          rw [heq'] at hsame ⊢
          exact Running.goes ⟨hauto, hconnected, fun ch => hsame.accounted (h.out ch),
            h.acknowledged, h.qos⟩ hresult
      | false =>
          refine h.ends (hheld (.inr hconnected)) hsame (r := .ok reply.session.toSessionState) ?_
          rw [← heq]
          simp [checkConnected, hresult, hconnected]
  | err e =>
      rw [hreply] at happly
      cases happly
      refine h.ends (hheld (.inl (by rw [hreply]; simp))) hsame
        (r := .error ⟨e, reply.session.toSessionState⟩) ?_
      rw [← heq]
      rfl
  | panic =>
      rw [hreply] at happly
      cases happly

theorem qosPublish_of_willAcknowledge {session : ClientSession}
    (h : session.willAcknowledge packet = true) : qosPublish packet = true := by
  cases packet with
  | publish p =>
      simp only [ClientSession.willAcknowledge, Bool.or_eq_true, Bool.and_eq_true] at h
      rw [qosPublish, Bool.or_eq_true]
      exact h.symm.imp_left And.left
  | _ => cases h

/-- A packet that `handle_packet` has returned is handed out. -/
theorem goes_handOut (hresult : t.result = none) (hpending : t.pendingForward = none)
    (hauto : t.session.autoAck = true) (hconnected : t.session.connected = true)
    (hout : ∀ ch, t.Accounted ch)
    (hacknowledged : ∀ p, t.acknowledged.count p ≤ (t.returned ++ [packet]).count (.publish p))
    (hqos : ∀ p ∈ t.acknowledged, qosPublish (.publish p) = true)
    (hlost : (t.consumers (t.senders.channelOf packet)).closed = true →
      ∀ pending, t.Retained none pending) :
    (Task.handOut { t with returned := t.returned ++ [packet] } packet).checkConnected.Goes := by
  have hhanded : ∀ ch, _ → (Task.handOut { t with returned := t.returned ++ [packet] } packet).Accounted ch :=
    fun ch => (hout ch).handOut hpending
  rcases handed_handOut { t with returned := t.returned ++ [packet] } packet with
    ⟨consumer, -, heq⟩ | heq | ⟨hclosed, heq⟩
  · rw [heq] at hhanded ⊢
    rw [checkConnected_of_connected (by exact hconnected)]
    exact Running.goes ⟨hauto, hconnected, fun ch => hhanded ch hresult, hacknowledged, hqos⟩ hresult
  · rw [heq] at hhanded ⊢
    rw [checkConnected_of_connected (by exact hconnected)]
    exact Running.goes ⟨hauto, hconnected, fun ch => hhanded ch hresult, hacknowledged, hqos⟩ hresult
  · rw [heq]
    exact goes_of_result (r := .error ⟨channelClosed, t.session.toSessionState⟩) rfl
      (hlost hclosed t.session.pendingQosRecv)

theorem Running.read (h : t.Running) (hresult : t.result = none)
    (hpending : t.pendingForward = none)
    (hcareful : ok = true → t.session.willAcknowledge packet = true →
      (t.consumers (t.senders.channelOf packet)).closed = false) {t₁ : Task}
    (heq₁ : t₁ = { t with
      session := (t.session.handlePacket ok packet).session
      acknowledged := t.acknowledged ++
        acknowledgedBy packet (t.session.handlePacket ok packet).sent })
    (hcases : (∃ out, (t.session.handlePacket ok packet).result = .ok (some out) ∧
        t' = handOut { t₁ with returned := t₁.returned ++ [out] } out) ∨
      ((t.session.handlePacket ok packet).result = .ok none ∧ t' = t₁) ∨
      ∃ e, (t.session.handlePacket ok packet).result = .err e ∧ t' = t₁.fail e) :
    t'.checkConnected.Goes := by
  obtain ⟨hauto, hconnected⟩ : (t.session.handlePacket ok packet).session.autoAck = _ ∧ _ :=
    ClientSession.modes_handlePacket
  rw [h.autoAck] at hauto
  rw [h.connected] at hconnected
  have hempty : ∀ pending, t.Retained none pending :=
    h.dropped fun held hheld => by rw [hpending] at hheld; cases hheld
  cases ClientSession.taken_handlePacket (s := t.session) h.autoAck with
  | none hwill hsent =>
      rw [hsent, List.append_nil] at heq₁
      have hrunning₁ : t₁.Running := by
        rw [heq₁]
        exact ⟨hauto, hconnected, h.out, h.acknowledged, h.qos⟩
      rcases hcases with ⟨out, -, rfl⟩ | ⟨-, rfl⟩ | ⟨e, -, rfl⟩
      · rw [heq₁]
        refine goes_handOut hresult hpending hauto hconnected h.out (fun p => ?_) h.qos fun _ => hempty
        rw [List.count_append]
        exact (h.acknowledged p).trans (Nat.le_add_right _ _)
      · rw [checkConnected_of_connected hrunning₁.connected]
        rw [heq₁] at hrunning₁ ⊢
        exact hrunning₁.goes hresult
      · rw [heq₁]
        exact goes_of_result (r := .error ⟨e, _⟩) rfl (hempty _)
  | passed p heq hwill hsent hwritten hreturned =>
      rcases hcases with ⟨out, hout, rfl⟩ | ⟨hout, -⟩ | ⟨e, herr, -⟩
      · cases hreturned.symm.trans hout
        rw [heq₁, hsent]
        refine goes_handOut hresult hpending hauto hconnected h.out (fun p' => ?_) (fun p' hp' => ?_)
          fun hclosed => ?_
        · have hle := h.acknowledged p'
          simp only [List.count_append, List.count_singleton, heq, beq_iff_eq, Packet.publish.injEq]
          omega
        · rcases List.mem_append.mp hp' with hp' | hp'
          · exact h.qos p' hp'
          · rw [List.mem_singleton.mp hp']
            exact qosPublish_of_willAcknowledge (heq ▸ hwill)
        · have hopen := hcareful hwritten hwill
          cases hopen.symm.trans hclosed
      · cases hreturned.symm.trans hout
      · cases hreturned.symm.trans herr
  | kept p heq hsent herr hkept =>
      rcases hcases with ⟨out, hout, -⟩ | ⟨hout, -⟩ | ⟨e, -, rfl⟩
      · obtain ⟨e, herr⟩ := herr
        cases herr.symm.trans hout
      · obtain ⟨e, herr⟩ := herr
        cases herr.symm.trans hout
      · rw [heq₁, hsent]
        refine goes_of_result (r := .error ⟨e, _⟩) rfl fun p' => ?_
        have hbefore : t.acknowledged.count p' ≤
            (t.enqueued (t.senders.channelOf (.publish p'))).count (.publish p') := hempty ∅ p'
        have hafter : (t.acknowledged ++ [p]).count p' ≤
            (t.enqueued (t.senders.channelOf (.publish p'))).count (.publish p') +
              keeping (t.session.handlePacket ok packet).session.pendingQosRecv p' := by
          rw [List.count_append, List.count_singleton]
          split
          · rename_i hp
            rw [← eq_of_beq hp] at hbefore ⊢
            omega
          · omega
        exact hafter
  | panic hpanic =>
      rcases hcases with ⟨out, hout, -⟩ | ⟨hout, -⟩ | ⟨e, herr, -⟩
      · cases hpanic.symm.trans hout
      · cases hpanic.symm.trans hout
      · cases hpanic.symm.trans herr

theorem Running.step (h : t.result = none → t.Running) (hal : t.Survives)
    (hcareful : t.Careful turn) (hstep : t.step turn = some t') : t'.Goes := by
  rcases step_cases hstep with hothers | ⟨hresult, hselect⟩
  · exact ⟨fun hnone => (h (hothers.result ▸ hnone)).byOthers hothers, hal.byOthers hothers⟩
  have hrunning := h hresult
  cases turn with
  | keepAlive ok =>
      refine hrunning.write hresult hrunning.autoAck (fun hfails => hcareful ?_) hselect
      cases ok with
      | true =>
          rcases hfails with hfails | hfails
          · exact absurd rfl hfails
          · cases hrunning.connected.symm.trans hfails
      | false => rfl
  | forward =>
      obtain ⟨t₁, hforward, rfl⟩ := Option.map_eq_some_iff.mp hselect
      unfold forwardPending at hforward
      cases hpending : t.pendingForward with
      | none =>
          rw [hpending] at hforward
          cases hforward
      | some packet =>
          simp only [hpending] at hforward
          split at hforward
          · rename_i consumer hroom
            cases hforward
            rw [checkConnected_of_connected (by exact hrunning.connected)]
            exact Running.goes ⟨hrunning.autoAck, hrunning.connected,
              fun ch => (hrunning.out ch).forwarded hpending consumer, hrunning.acknowledged,
              hrunning.qos⟩ hresult
          · cases hforward
          · rename_i hclosed
            cases hforward
            refine hrunning.ends (fun held hheld => ?_)
              ((sameHands_fail t _).trans (sameHands_checkConnected _))
              (r := .error ⟨channelClosed, t.session.toSessionState⟩) rfl
            cases hpending.symm.trans hheld
            rw [Bool.eq_false_iff]
            intro hqos
            have hopen := hcareful packet hheld hqos
            rw [closed_of_trySend hclosed] at hopen
            cases hopen
  | read r ok =>
      simp only [select] at hselect
      split at hselect
      · rename_i hnone
        have hpending := Option.isNone_iff_eq_none.mp hnone
        obtain ⟨t₁, hread, rfl⟩ := Option.map_eq_some_iff.mp hselect
        rcases readNext_cases hread with ⟨e, rfl⟩ | ⟨packet, t₂, rfl, heq, hcases⟩
        · exact hrunning.ends (fun held hheld => by rw [hpending] at hheld; cases hheld)
            ((sameHands_fail t e).trans (sameHands_checkConnected _))
            (r := .error ⟨e, t.session.toSessionState⟩) rfl
        · exact hrunning.read hresult hpending
            hcareful heq hcases
      · cases hselect
  | outbound packet ok =>
      simp only [select] at hselect
      split at hselect
      · cases hselect
        exact hrunning.goes hresult
      · rename_i hnot
        refine hrunning.write hresult (ClientSession.autoAck_writeNext.trans hrunning.autoAck)
          (fun hfails => hcareful ?_) hselect
        rcases hfails with hfails | hfails
        · simp [stops, hnot, hfails]
        · simp [stops, hnot, hfails]
  | outboundClosed =>
      cases hselect
      exact hrunning.ends (hcareful rfl) (sameHands_fail t _) rfl
  | _ => cases hselect

/-- With `auto_ack` no publish that was acknowledged is lost by a task that does not stop
while it holds one, and whose consumers do not go away. -/
theorem atLeastOnce_of_careful {session : ClientSession} {senders : Senders}
    {consumers : Nat → Consumer} {turns : List Turn} (hauto : session.autoAck = true)
    (hconnected : session.connected = true)
    (hcareful : Along Task.step Careful (.start session senders consumers) turns)
    (hrun : run Task.step (.start session senders consumers) turns = some t) : t.AtLeastOnce := by
  have hstart : (Task.start session senders consumers).Running :=
    ⟨hauto, hconnected, accounted_start session senders consumers, fun _ => Nat.le_refl _,
      fun _ hp => (by cases hp)⟩
  refine ⟨passed_of_run hrun, ?_⟩
  exact (invariant_of_step (I := Goes) (fun t turn t' h hcareful hstep =>
    Running.step h.1 h.2 hcareful hstep) (hstart.goes rfl) hcareful hrun).2

end

/-- The consumer takes the first publish, the second one follows, and the client stops. -/
def servedTurns : List Turn :=
  heldTurns ++ [.consume 0, .forward, .outbound (.disconnect .default) true]

theorem atLeastOnce_of_servedTurns : ∃ t, run Task.step startNarrow servedTurns = some t ∧
    t.result.isSome = true ∧ t.taken 0 = [.publish (publishOf .atLeastOnce (some 1))] ∧
      (t.consumers 0).queue = [.publish (publishOf .atLeastOnce (some 2))] ∧ t.AtLeastOnce := by
  have hfacts : (run Task.step startNarrow servedTurns).map (fun t =>
      (t.result.isSome, t.taken 0, (t.consumers 0).queue)) =
      some (true, [.publish (publishOf .atLeastOnce (some 1))],
        [.publish (publishOf .atLeastOnce (some 2))]) := by
    decide +kernel
  obtain ⟨t, hrun, ht⟩ := Option.map_eq_some_iff.mp hfacts
  simp only [Prod.mk.injEq] at ht
  obtain ⟨hresult, htaken, hqueue⟩ := ht
  exact ⟨t, hrun, hresult, htaken, hqueue,
    atLeastOnce_of_careful rfl rfl (by decide +kernel) hrun⟩

/-- The client stops while the second publish waits. -/
theorem not_atLeastOnce_of_stop : ∃ t,
    run Task.step startNarrow (heldTurns ++ [.outbound (.disconnect .default) true]) = some t ∧
      t.result.isSome = true ∧ ¬ t.AtLeastOnce := by
  have hfacts : (run Task.step startNarrow
      (heldTurns ++ [.outbound (.disconnect .default) true])).map (fun t =>
        (t.acknowledged.count (publishOf .atLeastOnce (some 2)),
          (t.enqueued (t.senders.channelOf (.publish (publishOf .atLeastOnce (some 2))))).count
            (.publish (publishOf .atLeastOnce (some 2))),
          t.result.map fun r =>
            keeping (returnedState r).pendingQosRecv (publishOf .atLeastOnce (some 2)))) =
      some (1, 0, some 0) := by
    decide +kernel
  obtain ⟨t, hrun, ht⟩ := Option.map_eq_some_iff.mp hfacts
  simp only [Prod.mk.injEq] at ht
  obtain ⟨hacknowledged, henqueued, hkept⟩ := ht
  obtain ⟨r, hresult, hkept⟩ := Option.map_eq_some_iff.mp hkept
  refine ⟨t, hrun, by rw [hresult]; rfl, fun hal => ?_⟩
  have hsurvives := hal.survives
  unfold Survives at hsurvives
  rw [hresult] at hsurvives
  have hle := hsurvives (publishOf .atLeastOnce (some 2))
  rw [hacknowledged, henqueued, hkept] at hle
  exact absurd hle (by decide)

end Task

end Client
end Vaux
