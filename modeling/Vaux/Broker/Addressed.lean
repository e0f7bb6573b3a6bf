import Vaux.Broker.Origins

/-!
# Messages reach those who asked for them

What a handler writes to its client was published: the message of a PUBLISH or of a will, with
no more changed than its QoS, its DUP flag and its packet identifier.  When the broker looked
up whom the message was for, the client had a subscription that found its topic.
-/

namespace Vaux
namespace Broker

open Wire Mqtt Machine

/-! ## Copies -/

/-- A message as it goes to a subscriber, with the QoS the subscriber was granted. -/
structure Copy (subQos : QoSLevel) (o p : Publish) : Prop where
  content : { p with fixedHeader := o.fixedHeader, packetId := o.packetId } = o
  packetType : p.fixedHeader.packetType = o.fixedHeader.packetType
  retain : p.retain = o.retain
  /-- Below QoS 1 the identifier of the publisher stays. -/
  id : p.qos = .ok .atMostOnce → p.packetId = o.packetId
  qos : ∃ q, o.qos = .ok q ∧ p.qos = .ok (grantedQos q subQos)

section

variable {o p : Publish} {q subQos : QoSLevel} {packetId : UInt16}

theorem retain_setDup (h : FixedHeader) (dup : Bool) : (h.setDup dup).retain = h.retain := by
  have hall : ∀ flags : UInt8,
      ((flags &&& ~~~dupMask ||| (putBool dup <<< 3)) &&& retainMask != 0) =
        (flags &&& retainMask != 0) :=
    forall_uint8 (by cases dup <;> decide +kernel)
  exact hall h.flags

theorem Copy.withPacketId (h : Copy subQos o p) (packetId : UInt16) :
    Copy subQos o (Broker.withPacketId p packetId) := by
  obtain ⟨q, hq, hp⟩ := h.qos
  by_cases hzero : grantedQos q subQos = .atMostOnce
  · have hsame : Broker.withPacketId p packetId = p := by
      have hset : p.setPacketId (some packetId) =
          .err (.new "Mqttv53.3.2.2 QOS level must not be At Most Once") := by
        have hp' : p.fixedHeader.qos = .ok .atMostOnce := hzero ▸ hp
        rw [Publish.setPacketId, hp', Outcome.bind_ok]
      rw [Broker.withPacketId, hset]
    rw [hsame]
    exact h
  · rw [withPacketId_eq hp hzero]
    exact ⟨h.content, h.packetType, h.retain,
      fun hzero' => absurd (Outcome.ok.inj (hp.symm.trans hzero')) hzero, q, hq, hp⟩

theorem Copy.redelivered (h : Copy subQos o p) (packetId : UInt16) :
    Copy subQos o (Broker.redelivered packetId p) := by
  obtain ⟨q, hq, hp⟩ := h.qos
  by_cases hzero : grantedQos q subQos = .atMostOnce
  · have hall : ∀ q', p.qos = .ok q' → q' = .atMostOnce :=
      fun q' hq' => (Outcome.ok.inj (hq'.symm.trans hp)).trans hzero
    rw [redelivered_eq_self hall]
    exact h
  · have hset : ({ p with fixedHeader := p.fixedHeader.setDup true } : Publish).qos =
        .ok (grantedQos q subQos) := (qos_setDup _ _).trans hp
    rw [redelivered_eq hp hzero]
    exact ⟨h.content, h.packetType, (retain_setDup _ _).trans h.retain,
      fun hzero' => absurd (Outcome.ok.inj (hset.symm.trans hzero')) hzero, q, hq, hset⟩

end

/-! ## What happened in a run -/

section

variable (config : Config)

/-- In the run the client `sender` sent `o` over a connection that was accepted for it, or a
CONNECT had a will that is published as `o`; wills have no sender. -/
def Published (ls : List Label) (sender : String) (o : Publish) : Prop :=
  (∃ before n after w ref, ls = before ++ .event n (.packet (.publish o)) :: after ∧
    run Traffic.step (.start config) before = some w ∧
    (w.state.tasks (.connection n)).clientSession = some ref ∧
    (w.state.shared.sessions ref).id = sender) ∨
  sender = "" ∧ ∃ n connect will, .event n (.packet (.connect connect)) ∈ ls ∧
    connect.willMessage = some will ∧ Shared.willPublish will = o

/-- At some point of the run the broker looked up the subscribers of `o`.  If the indices of
the nodes fit in 32 bits, `sub` was then a subscription that finds the topic. -/
def LookedUp (ls : List Label) (sender : String) (o : Publish) (sub : Subscriber) : Prop :=
  ∃ before t c after w rest, ls = before ++ .act t c :: after ∧
    run Traffic.step (.start config) before = some w ∧
    (w.state.tasks t).todo = .route o sender :: rest ∧
    Published config before sender o ∧
    (w.state.shared.tree.nodeCount ≤ 2 ^ 32 →
      ∃ filter, w.table.lookup (filter, sub.sessionId) = some (sub.qos, sub.noLocal) ∧
        filterFinds (segments filter) (segments o.topicName) = true)

end

section

variable {config : Config} {ls ls' : List Label} {w w' : Traffic} {l : Label}

theorem Published.append {sender : String} {o : Publish} (h : Published config ls sender o) :
    Published config (ls ++ ls') sender o := by
  rcases h with ⟨before, n, after, w, ref, rfl, h⟩ | ⟨hsender, n, connect, will, hmem, h⟩
  · exact .inl ⟨before, n, after ++ ls', w, ref, by simp, h⟩
  · exact .inr ⟨hsender, n, connect, will, List.mem_append_left ls' hmem, h⟩

theorem LookedUp.append {sender : String} {o : Publish} {sub : Subscriber}
    (h : LookedUp config ls sender o sub) : LookedUp config (ls ++ ls') sender o sub := by
  obtain ⟨before, t, c, after, w, rest, rfl, h⟩ := h
  exact ⟨before, t, c, after ++ ls', w, rest, by simp, h⟩

/-- What is known of a reachable state besides its messages. -/
structure Traffic.Sound (w : Traffic) : Prop where
  broker : Broker.Inv w.state
  filed : w.Filed
  represents : w.state.shared.tree.nodeCount ≤ 2 ^ 32 → w.state.shared.tree.Represents w.table

theorem Traffic.sound_start (config : Config) : (Traffic.start config).Sound :=
  ⟨Broker.inv_start config, filed_start config, fun _ => TopicTree.represents_new⟩

theorem Traffic.Sound.step (h : w.Sound) (hstep : w.step l = some w') : w'.Sound := by
  have hstate := state_of_step hstep
  refine ⟨h.broker.step hstate, h.filed.step h.broker hstep, fun hle => ?_⟩
  rw [table_of_step hstep]
  exact represents_of_step h.represents hstate hle

end

/-- The PUBLISH that an action writes. -/
def Action.publish? : Action → Option Publish
  | .write (.publish p) => some p
  | _ => none

end Broker
end Vaux
