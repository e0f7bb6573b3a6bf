import Vaux.Broker.Addressed
import Vaux.Mqtt.EncodedSize

/-!
# What a handler writes

Every packet that a handler is to write names its own type in the fixed header, a PUBLISH
above QoS 0 has an identifier, and the CONNACK of a client that enters the pool says Success.
-/

namespace Vaux
namespace Mqtt

/-- The fixed header names the type of the packet, as every constructor but `default` of a
publish response sees to. -/
def Packet.Typed (p : Packet) : Prop := p.fixedHeader.packetType = p.packetType

instance (p : Packet) : Decidable p.Typed := inferInstanceAs (Decidable (_ = _))

/-- The packets that a broker sends; a PUBLISH has laws of its own. -/
def Packet.Served (p : Packet) : Prop :=
  match p with
  | .publish _ => True
  | .connAck _ | .pubAck _ | .subAck _ | .unsubAck _ | .pingResponse _ | .disconnect _ => p.Typed
  | _ => False

/-- A PUBLISH as it can be written. -/
structure Publish.Sendable (p : Publish) : Prop where
  typed : (Packet.publish p).Typed
  id : ∀ q, p.qos = .ok q → q ≠ .atMostOnce → p.packetId.isSome = true

end Mqtt

namespace Broker

open Wire Mqtt Machine

/-! ## Publishes -/

/-- Messages with the header of a PUBLISH, and with an identifier when they go out. -/
def sendable : Marks where
  routed _ o := (Packet.publish o).Typed
  found _ o _ := (Packet.publish o).Typed
  bound _ p := p.Sendable

theorem sendable_redelivered {p : Publish} (h : p.Sendable) (packetId : UInt16) :
    (redelivered packetId p).Sendable := by
  by_cases hzero : ∀ q, p.qos = .ok q → q = .atMostOnce
  · rw [redelivered_eq_self hzero]
    exact h
  · simp only [not_forall] at hzero
    obtain ⟨q, hqos, hne⟩ := hzero
    rw [redelivered_eq hqos hne]
    exact ⟨h.typed, fun _ _ _ => rfl⟩

theorem sendable_of_handOver {o out : Publish} {subQos : QoSLevel} {target target' : Session}
    (ho : (Packet.publish o).Typed) (h : handOver o subQos target = .ok (out, target')) :
    out.Sendable := by
  obtain ⟨q, hq, -⟩ := Outcome.bind_eq_ok.mp h
  obtain ⟨target'', hclone⟩ := handOver_eq hq subQos target
  have hout : out = clone o (grantedQos q subQos) target.nextPacketId.1 := by
    rw [hclone] at h
    cases h
    rfl
  have hqos : (o.setQos (grantedQos q subQos)).qos = .ok (grantedQos q subQos) := qos_setQos _ _
  rw [hout, clone]
  split
  · rename_i hzero
    rw [withPacketId_eq hqos hzero]
    exact ⟨ho, fun _ _ _ => rfl⟩
  · rename_i hzero
    refine ⟨ho, fun q' hq' hne => ?_⟩
    rw [hqos] at hq'
    cases hq'
    exact absurd (not_not.mp hzero) hne

theorem sendable_kept : sendable.Kept where
  handOver _ _ _ _ _ _ hfound _ hover := sendable_of_handOver hfound hover
  redelivered _ packetId _ h := sendable_redelivered h packetId

theorem typed_willPublish (will : WillMessage) : (Packet.publish (Shared.willPublish will)).Typed := by
  unfold Shared.willPublish
  simp only
  split
  · simp only [Publish.setPayloadFormat]
    split <;> rfl
  · rfl

/-! ## The other packets -/

/-- The CONNACK that a connection enters the pool with. -/
structure Welcomes (ack : ConnAck) : Prop where
  reason : ack.reason = .success
  typed : (Packet.connAck ack).Typed

def Action.Formed : Action → Prop
  | .enterPool a | .lockOld _ a _ | .disconnectOld _ a _ | .settle a _ | .enroll a _ =>
    Welcomes a.ack
  | .write p => p.Served
  | _ => True

theorem welcomes_negotiate (pool : SessionPool) (connect : Connect) (uuid : String) :
    Welcomes (negotiate pool connect uuid).ack := by
  have hkeepAlive : Welcomes (negotiateKeepAlive pool connect.keepAlive .default).2 := by
    unfold negotiateKeepAlive
    split
    · exact ⟨rfl, rfl⟩
    · split <;> exact ⟨rfl, rfl⟩
  have hexpiry : ∀ ack, Welcomes ack →
      Welcomes (negotiateExpiry pool connect.sessionExpiryInterval ack).2 := by
    intro ack hack
    unfold negotiateExpiry
    split
    · split
      · simp only
        split
        · exact ⟨hack.reason, hack.typed⟩
        · exact hack
      · exact hack
    · exact hack
  have hboth := hexpiry _ hkeepAlive
  unfold negotiate
  simp only
  split
  · exact ⟨hboth.reason, hboth.typed⟩
  · exact hboth

section

variable {sh sh' : Shared} {t : TaskId} {c : Choice} {a : Action} {next : Next} {ref : Ref}

theorem formed_of_holds {x : Admission} {target : Option Ref} (h : a.holds = some (x, target))
    (hx : Welcomes x.ack) : a.Formed := by
  cases a with
  | lockOld | disconnectOld | settle | enroll =>
      cases h
      exact hx
  | _ => cases h

theorem formed_redelivery (pending : List (UInt16 × Publish)) :
    ∀ b ∈ Shared.redelivery ref pending, b.Formed := by
  intro b hb
  obtain ⟨x, -, hb⟩ := List.mem_flatMap.mp hb
  rcases List.mem_cons.mp hb with rfl | hb
  · trivial
  · rw [List.mem_singleton.mp hb]
    trivial

theorem typed_subAck (packetId : UInt16) (reasonCodes : List Reason) :
    (Packet.subAck
      { (SubAck.newWithPacketId packetId).toOption.getD .default with reasonCodes }).Typed := by
  unfold SubAck.newWithPacketId
  split <;> rfl

theorem formed_of_performed (ha : a.Formed) (hp : Shared.Performed sh t c a sh' next) :
    ∀ b ∈ next.more, b.Formed := by
  cases hp with
  | negotiate connect => exact List.forall_mem_singleton.mpr (welcomes_negotiate _ connect _)
  | reject x => exact List.forall_mem_cons.mpr ⟨ha.typed, List.forall_mem_singleton.mpr trivial⟩
  | enter x =>
      refine List.forall_mem_singleton.mpr ?_
      rcases Shared.choose_cases sh x with ⟨_, _, -, -, -, hholds⟩ | ⟨_, _, _, -, -, hholds⟩ |
        ⟨_, -, -, hholds⟩ | ⟨-, -, -, hholds⟩
      all_goals exact formed_of_holds hholds ha
  | lockOld | oldClosed | oldSent | settle => exact List.forall_mem_singleton.mpr ha
  | register x | adopt x ref =>
      exact List.forall_mem_cons.mpr ⟨trivial, List.forall_mem_cons.mpr
        ⟨ha.typed, List.forall_mem_singleton.mpr trivial⟩⟩
  | openSession ref =>
      intro b hb
      rcases List.mem_append.mp hb with hb | hb
      · exact formed_redelivery c.order b hb
      · rw [List.mem_singleton.mp hb]
        trivial
  | publishWill | delayWill => exact List.forall_mem_singleton.mpr trivial
  | subscribe sessionId p => exact List.forall_mem_singleton.mpr (typed_subAck _ _)
  | unsubscribe => exact List.forall_mem_singleton.mpr rfl
  | route publish sender subscribers =>
      intro b hb
      simp only [Next.more, List.cons_append, List.mem_cons, List.mem_append, List.mem_map,
        List.not_mem_nil, or_false] at hb
      rcases hb with rfl | ⟨sub, -, rfl⟩ | rfl <;> trivial
  | _ => exact fun b hb => (List.not_mem_nil hb).elim

variable {task : Task} {e : Event} {todo : List Action}

theorem formed_ending (sh : Shared) (ref : Ref) : ∀ b ∈ sh.ending ref, b.Formed :=
  List.forall_mem_cons.mpr ⟨trivial, List.forall_mem_singleton.mpr trivial⟩

theorem formed_return (sh : Shared) (session : Option Ref) (result : Except BrokerError Unit) :
    ∀ b ∈ (session.map sh.ending).getD [] ++ [.finish result], b.Formed := by
  intro b hb
  rcases List.mem_append.mp hb with hb | hb
  · cases session with
    | none => exact (List.not_mem_nil hb).elim
    | some ref => exact formed_ending sh ref b hb
  · rw [List.mem_singleton.mp hb]
    trivial

theorem formed_handlePublish {publish : Publish} {sessionId : String}
    (h : Shared.handlePublish publish sessionId = some todo) : ∀ b ∈ todo, b.Formed := by
  unfold Shared.handlePublish at h
  split at h
  · split at h
    · cases h
      exact List.forall_mem_cons.mpr ⟨rfl, List.forall_mem_singleton.mpr trivial⟩
    · cases h
      exact List.forall_mem_cons.mpr ⟨rfl, List.forall_mem_singleton.mpr trivial⟩
  · cases h
    exact List.forall_mem_singleton.mpr trivial
  · cases h

theorem formed_handlePacket {packet : Packet} (h : sh.handlePacket ref packet = some todo) :
    ∀ b ∈ todo, b.Formed := by
  cases packet with
  | publish publish => exact formed_handlePublish h
  | disconnect p =>
      simp only [Shared.handlePacket] at h
      split at h
      · cases h
        exact List.forall_mem_cons.mpr ⟨trivial, List.forall_mem_singleton.mpr trivial⟩
      · cases h
        exact formed_ending sh ref
  | pingRequest =>
      cases h
      exact List.forall_mem_singleton.mpr rfl
  | subscribe | unsubscribe | pubAck =>
      cases h
      exact List.forall_mem_singleton.mpr trivial
  | _ =>
      cases h
      exact fun b hb => (List.not_mem_nil hb).elim

theorem formed_handlePreConnect (packet : Packet) :
    ∀ b ∈ sh.handlePreConnect packet, b.Formed := by
  cases packet with
  | connect connect =>
      simp only [Shared.handlePreConnect]
      split
      · exact List.forall_mem_singleton.mpr trivial
      · exact List.forall_mem_cons.mpr ⟨rfl, List.forall_mem_singleton.mpr trivial⟩
  | _ => exact List.forall_mem_singleton.mpr rfl

theorem formed_of_arises (h : Shared.Arises sh task e todo) : ∀ b ∈ todo, b.Formed := by
  cases h with
  | control msg =>
      cases msg with
      | deliver publish => exact List.forall_mem_singleton.mpr trivial
      | disconnect reason =>
          simp only [Shared.handleControl]
          split
          · intro b hb
            rcases List.mem_append.mp hb with hb | hb
            · split at hb
              · exact (List.not_mem_nil hb).elim
              · rw [List.mem_singleton.mp hb]
                trivial
            · rw [List.mem_singleton.mp hb]
              rfl
          · exact List.forall_mem_cons.mpr ⟨trivial, List.forall_mem_singleton.mpr trivial⟩
  | timeout ref => exact formed_ending sh ref
  | idle => exact List.forall_mem_cons.mpr ⟨trivial, List.forall_mem_singleton.mpr trivial⟩
  | packet p ref _ _ _ htodo => exact formed_handlePacket htodo
  | ignored => exact fun b hb => (List.not_mem_nil hb).elim
  | preConnect p => exact formed_handlePreConnect p
  | endOfStream => exact formed_return sh _ _
  | readError => exact formed_return sh _ _

end

end Broker
end Vaux
