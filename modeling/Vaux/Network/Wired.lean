import Vaux.Client.ProtocolErrors
import Vaux.Network.Moves

/-!
# What is under way

All that the two sides write can be sent: the fixed header names the type of the packet, and a
PUBLISH above QoS 0 has an identifier.  Such a packet keeps its type on the way, and the
identifier that its answer is found by.
-/

namespace Vaux

namespace Mqtt

/-- A packet as the two sides write it. -/
def Packet.Sendable : Packet → Prop
  | .publish p => p.Sendable
  | p => p.Typed

theorem Packet.Sendable.typed {p : Packet} (h : p.Sendable) : p.Typed := by
  cases p with
  | publish p => exact Publish.Sendable.typed h
  | _ => exact h

end Mqtt

namespace Network

open Wire Mqtt Machine

/-! ## On the way -/

section

variable {order : HashOrder} {p q : Packet}

theorem offer_of_carried (hp : p.Sendable) (h : p.carried order = some q) : offer q = offer p := by
  cases p with
  | publish a =>
      obtain ⟨b, rfl, -, hqos, -, hid⟩ := publish_of_carried hp.typed h
      simp only [offer, hqos]
      split
      · rename_i hone
        refine hid ⟨_, hone, ?_⟩
        simp [Publish.Sendable.id hp _ hone]
      · rfl
  | _ =>
      have htype := hp.typed.carried h
      cases q with
      | publish b => cases htype
      | _ => rfl

theorem confirmation_of_carried (hp : p.Typed) (h : p.carried order = some q) :
    confirmation q = confirmation p := by
  cases p with
  | pubAck a =>
      obtain ⟨b, rfl, hid⟩ := pubAck_of_carried hp h
      exact congrArg some hid
  | _ =>
      have htype := hp.carried h
      cases q with
      | pubAck b => cases htype
      | _ => rfl

theorem request_of_carried (hp : p.Sendable) (h : p.carried order = some q) :
    request q = request p := by
  have htype := hp.typed.carried h
  cases p with
  | publish a =>
      obtain ⟨b, rfl, -⟩ := publish_of_carried hp.typed h
      exact congrArg (Option.map Request.publish) (offer_of_carried hp h)
  | subscribe a =>
      obtain ⟨b, rfl, hid⟩ := subscribe_of_carried hp.typed h
      exact congrArg (fun packetId => some (Request.subscribe packetId)) hid
  | unsubscribe a =>
      obtain ⟨b, rfl, hid⟩ := unsubscribe_of_carried hp.typed h
      exact congrArg (fun packetId => some (Request.unsubscribe packetId)) hid
  | pingRequest a =>
      cases q with
      | pingRequest b => rfl
      | _ => cases htype
  | _ =>
      cases q with
      | publish | subscribe | unsubscribe | pingRequest => cases htype
      | _ => rfl

theorem answer_of_carried (hp : p.Typed) (h : p.carried order = some q) : answer q = answer p := by
  have htype := hp.carried h
  cases p with
  | pubAck a =>
      obtain ⟨b, rfl, hid⟩ := pubAck_of_carried hp h
      exact congrArg (fun packetId => some (Request.publish packetId)) hid
  | subAck a =>
      obtain ⟨b, rfl, hid⟩ := subAck_of_carried hp h
      exact congrArg (fun packetId => some (Request.subscribe packetId)) hid
  | unsubAck a =>
      obtain ⟨b, rfl, hid⟩ := unsubAck_of_carried hp h
      exact congrArg (fun packetId => some (Request.unsubscribe packetId)) hid
  | pingResponse a =>
      cases q with
      | pingResponse b => rfl
      | _ => cases htype
  | _ =>
      cases q with
      | pubAck | subAck | unsubAck | pingResponse => cases htype
      | _ => rfl

end

/-! ## Streams -/

/-- The packet `p` may be read as `q`. -/
def Carries (p q : Packet) : Prop := ∃ order, p.carried order = some q

/-- What was written has been read, but for what is under way. -/
def Passes (written queue read : List Packet) : Prop :=
  ∃ passed, written = passed ++ queue ∧ List.Forall₂ Carries passed read

namespace Passes

variable {written queue read : List Packet} {p q : Packet}

theorem start : Passes [] [] [] := ⟨[], rfl, .nil⟩

theorem push (h : Passes written queue read) (sent : List Packet) :
    Passes (written ++ sent) (queue ++ sent) read := by
  obtain ⟨passed, rfl, hread⟩ := h
  exact ⟨passed, List.append_assoc .., hread⟩

theorem pop (h : Passes written (p :: queue) read) (hcarries : Carries p q) :
    Passes written queue (read ++ [q]) := by
  obtain ⟨passed, rfl, hread⟩ := h
  exact ⟨passed ++ [p], by simp, List.rel_append hread (.cons hcarries .nil)⟩

theorem mem_written (h : Passes written queue read) (hp : p ∈ queue) : p ∈ written := by
  obtain ⟨passed, rfl, -⟩ := h
  exact List.mem_append_right _ hp

theorem exists_written (h : Passes written queue read) (hq : q ∈ read) :
    ∃ p ∈ written, Carries p q := by
  obtain ⟨passed, rfl, hread⟩ := h
  obtain ⟨i, hi, rfl⟩ := List.mem_iff_getElem.mp hq
  have hi' : i < passed.length := hread.length_eq ▸ hi
  exact ⟨passed[i], List.mem_append_left _ (List.getElem_mem hi'), hread.get hi' hi⟩

end Passes

/-- Both directions of a connection. -/
structure Link.Passing (link : Link) : Prop where
  toBroker : Passes link.written link.toBroker link.taken
  toClient : Passes link.served link.toClient link.read

namespace Link.Passing

variable {link : Link} {p q : Packet} {rest : List Packet}

theorem write (h : link.Passing) (program : Program) (ok : Bool) (sent : List Packet) :
    (({ link with program } : Link).write ok sent).Passing := by
  unfold Link.write
  split
  · exact ⟨h.toBroker.push sent, h.toClient⟩
  · exact ⟨h.toBroker, h.toClient⟩

theorem hear (h : link.Passing) (program : Program) (htoClient : link.toClient = p :: rest)
    (hcarries : Carries p q) :
    ({ link with program, toClient := rest, read := link.read ++ [q] } : Link).Passing :=
  ⟨h.toBroker, (htoClient ▸ h.toClient).pop hcarries⟩

theorem take (h : link.Passing) (htoBroker : link.toBroker = p :: rest) (hcarries : Carries p q) :
    (link.take rest q).Passing :=
  ⟨(htoBroker ▸ h.toBroker).pop hcarries, h.toClient⟩

theorem deliver (h : link.Passing) (packets : List Packet) : (link.deliver packets).Passing :=
  ⟨h.toBroker, h.toClient.push packets⟩

end Link.Passing

/-! ## What a client writes -/

/-- The application hands over packets with the type of their constructor. -/
def Turn.Typed : Client.Turn → Prop
  | .outbound p _ => p.Typed
  | _ => True

def Label.Typed : Label → Prop
  | .turn _ t => Turn.Typed t
  | _ => True

instance : ∀ t : Client.Turn, Decidable (Turn.Typed t)
  | .outbound p _ => inferInstanceAs (Decidable p.Typed)
  | .keepAlive _ | .forward | .read .. | .outboundClosed | .consume _ | .drop _ | .other .. =>
    isTrue trivial

section

variable {s : Client.ClientSession} {ok : Bool} {p : Packet}

/-- The application's packet is written as it is, or with an identifier. -/
theorem mem_sent_writeNext {x : Packet} (hx : x ∈ (s.writeNext ok p).sent) :
    (x = p ∧ ∀ publish, p = .publish publish → publish.qos = .ok .atMostOnce) ∨
      ∃ publish packetId, p = .publish publish ∧
        x = .publish { publish with packetId := some packetId } := by
  cases p with
  | publish p =>
      have hqos : ∀ entry, x ∈ (s.writeQos ok entry p).sent →
          ∃ packetId, x = .publish { p with packetId := some packetId } := by
        intro entry hx
        obtain ⟨e, h⟩ | ⟨packetId, last, -, h⟩ := Client.ClientSession.writeQos_cases s ok entry p
        · rw [h] at hx
          exact (List.not_mem_nil hx).elim
        · rw [h] at hx
          exact ⟨packetId, List.mem_singleton.mp hx⟩
      rw [Client.ClientSession.writeNext] at hx
      split at hx
      · rename_i hzero
        refine .inl ⟨List.mem_singleton.mp hx, fun publish heq => ?_⟩
        cases heq
        exact hzero
      · obtain ⟨packetId, h⟩ := hqos _ hx
        exact .inr ⟨p, packetId, rfl, h⟩
      · obtain ⟨packetId, h⟩ := hqos _ hx
        exact .inr ⟨p, packetId, rfl, h⟩
      · exact (List.not_mem_nil hx).elim
  | disconnect d =>
      rw [Client.ClientSession.writeNext] at hx
      have hx : x = .disconnect d := by
        split at hx <;> exact List.mem_singleton.mp hx
      exact .inl ⟨hx, fun publish heq => by cases heq⟩
  | _ => exact .inl ⟨List.mem_singleton.mp hx, fun publish heq => by cases heq⟩

theorem sendable_writeNext (hp : p.Typed) : ∀ x ∈ (s.writeNext ok p).sent, x.Sendable := by
  intro x hx
  rcases mem_sent_writeNext hx with ⟨rfl, hzero⟩ | ⟨publish, packetId, rfl, rfl⟩
  · cases x with
    | publish publish =>
        refine ⟨hp, fun q hq hne => ?_⟩
        rw [hzero publish rfl] at hq
        cases hq
        exact absurd rfl hne
    | _ => exact hp
  · exact ⟨hp, fun _ _ _ => rfl⟩

/-- A client writes of its own accord nothing but acknowledgements. -/
theorem controls_handlePacket (s : Client.ClientSession) (ok : Bool) (p : Packet) :
    ∀ x ∈ (s.handlePacket ok p).sent, x.Typed ∧ Client.qosControl x = true := by
  have hnothing : ∀ {sent : List Packet}, sent = [] →
      ∀ x ∈ sent, x.Typed ∧ Client.qosControl x = true := by
    rintro sent rfl x hx
    exact (List.not_mem_nil hx).elim
  have hone : ∀ {sent : List Packet} {x : Packet}, sent = [x] → x.Typed → Client.qosControl x = true →
      ∀ x ∈ sent, x.Typed ∧ Client.qosControl x = true := by
    rintro sent x rfl htyped hcontrol
    exact List.forall_mem_singleton.mpr ⟨htyped, hcontrol⟩
  cases p with
  | publish p =>
      obtain h | ⟨_, h | h⟩ := s.sent_handleRecvPublish ok p
      · exact hnothing h
      · exact hone h rfl rfl
      · exact hone h rfl rfl
  | pubAck p => exact hnothing s.sent_handlePubAck
  | pubRec p =>
      obtain h | h := s.sent_handlePubRec ok p.packetId
      · exact hnothing h
      · exact hone h rfl rfl
  | pubRel p =>
      obtain h | h := s.sent_handlePubRel ok p.packetId
      · exact hnothing h
      · exact hone h rfl rfl
  | pubComp p => exact hnothing s.sent_handlePubComp
  | _ => exact hnothing rfl

theorem sendable_handlePacket (s : Client.ClientSession) (ok : Bool) (p : Packet) :
    ∀ x ∈ (s.handlePacket ok p).sent, x.Sendable := by
  intro x hx
  obtain ⟨htyped, hcontrol⟩ := controls_handlePacket s ok p x hx
  cases x with
  | publish => cases hcontrol
  | _ => exact htyped

theorem sendable_sends {task : Client.Task} {turn : Client.Turn} (hturn : Turn.Typed turn) :
    ∀ x ∈ task.sends turn, x.Sendable := by
  cases turn with
  | keepAlive ok => exact List.forall_mem_singleton.mpr rfl
  | read r ok =>
      cases r with
      | packet p => exact sendable_handlePacket task.session ok p
      | _ => exact fun x hx => (List.not_mem_nil hx).elim
  | outbound p ok =>
      simp only [Client.Task.sends]
      split
      · exact fun x hx => (List.not_mem_nil hx).elim
      · exact sendable_writeNext hturn
  | _ => exact fun x hx => (List.not_mem_nil hx).elim

end

/-! ## The invariant -/

structure State.Wired (net : State) : Prop where
  traffic : ∃ w : Broker.Traffic, w.state = net.broker ∧ w.Sound ∧ w.Within Broker.sendable
  formed : ∀ t, ∀ a ∈ (net.broker.tasks t).todo, a.Formed
  passing : ∀ n, (net.links n).Passing
  written : ∀ n, ∀ p ∈ (net.links n).written, p.Sendable
  served : ∀ n, ∀ p ∈ (net.links n).served, p.Sendable ∧ p.Served

section

variable {net net' : State} {l : Label} {n : Nat}

theorem passing_start (config : Broker.Config) (n : Nat) : ((State.start config).links n).Passing :=
  ⟨Passes.start, Passes.start⟩

theorem passing_of_step (h : (net.links n).Passing) (hstep : net.step l = some net') :
    (net'.links n).Passing := by
  cases State.moved_of_step hstep n with
  | still hlink => exact hlink ▸ h
  | dialed _ _ _ _ _ ok _ _ _ _ hlink => exact hlink ▸ h.write _ ok _
  | greeted _ order _ _ _ _ _ _ _ htoClient hcarried _ hlink =>
      exact hlink ▸ h.hear _ htoClient ⟨order, hcarried⟩
  | abandoned _ _ hlink => exact hlink ▸ ⟨h.toBroker, h.toClient⟩
  | turned _ _ _ _ _ _ _ hlink => exact hlink ▸ h.write _ _ _
  | received _ task' order _ _ _ _ _ htoClient hcarried _ hlink =>
      rw [hlink]
      exact (h.hear (.started task') htoClient ⟨order, hcarried⟩).write (.started task') _ _
  | arrived order _ _ _ _ htoBroker hcarried _ hlink =>
      exact hlink ▸ h.take htoBroker ⟨order, hcarried⟩
  | event _ _ _ _ _ hlink => exact hlink ▸ h
  | acted _ _ _ _ _ _ hlink => exact hlink ▸ h.deliver _

theorem wired_start (config : Broker.Config) : (State.start config).Wired where
  traffic :=
    ⟨.start config, rfl, Broker.Traffic.sound_start config, Broker.Traffic.within_start _ config⟩
  formed := fun _ _ ha => (List.not_mem_nil ha).elim
  passing := passing_start config
  written := fun _ _ hp => (List.not_mem_nil hp).elim
  served := fun _ _ hp => (List.not_mem_nil hp).elim

theorem State.Wired.toBroker (hw : net.Wired) (n : Nat) :
    ∀ p ∈ (net.links n).toBroker, p.Sendable :=
  fun p hp => hw.written n p ((hw.passing n).toBroker.mem_written hp)

theorem State.Wired.toClient (hw : net.Wired) (n : Nat) :
    ∀ p ∈ (net.links n).toClient, p.Sendable ∧ p.Served :=
  fun p hp => hw.served n p ((hw.passing n).toClient.mem_written hp)

theorem taken_write (link : Link) (ok : Bool) (sent : List Packet) :
    (link.write ok sent).taken = link.taken ∧ (link.write ok sent).served = link.served := by
  unfold Link.write
  split <;> exact ⟨rfl, rfl⟩

/-- A step of the network is a step of its broker, or the broker takes no part in it.  A packet
that comes to the broker was under way. -/
theorem broker_of_step (hstep : net.step l = some net') :
    (net'.broker = net.broker ∧
      ∀ n, (net'.links n).taken = (net.links n).taken ∧ (net'.links n).served = (net.links n).served) ∨
    ∃ b, net.broker.step b = some net'.broker ∧
      (∀ n q, b = .event n (.packet q) →
        ∃ order, ∃ p ∈ (net.links n).toBroker, p.carried order = some q) ∧
      ∀ n, (net'.links n).taken = (net.links n).taken ++ (arrival n b).toList ∧
        (net'.links n).served = (net.links n).served ++ written net.broker n b := by
  have hlinked : ∀ {m : Nat} {link : Link}, net' = net.setLink m link →
      link.taken = (net.links m).taken → link.served = (net.links m).served →
      net'.broker = net.broker ∧ ∀ n,
        (net'.links n).taken = (net.links n).taken ∧ (net'.links n).served = (net.links n).served := by
    rintro m link rfl htaken hserved
    refine ⟨rfl, fun n => ?_⟩
    by_cases hn : n = m
    · subst hn
      rw [State.setLink_links]
      exact ⟨htaken, hserved⟩
    · rw [State.setLink_links_of_ne net link hn]
      exact ⟨rfl, rfl⟩
  cases l with
  | dial m state uuid credentials cleanStart will ok =>
      obtain ⟨link, hlink, hnet⟩ := Option.map_eq_some_iff.mp hstep
      unfold Link.dial at hlink
      split at hlink
      · cases hlink
        exact .inl (hlinked hnet.symm (taken_write ..).1 (taken_write ..).2)
      · cases hlink
  | greet m order senders consumers =>
      obtain ⟨link, hlink, hnet⟩ := Option.map_eq_some_iff.mp hstep
      unfold Link.greet at hlink
      split at hlink
      · obtain ⟨q, -, hlink⟩ := Option.bind_eq_some_iff.mp hlink
        obtain ⟨reply, -, hlink⟩ := Option.bind_eq_some_iff.mp hlink
        cases hlink
        exact .inl (hlinked hnet.symm rfl rfl)
      · cases hlink
  | abandon m =>
      obtain ⟨link, hlink, hnet⟩ := Option.map_eq_some_iff.mp hstep
      unfold Link.abandon at hlink
      split at hlink
      · cases hlink
        exact .inl (hlinked hnet.symm rfl rfl)
      · cases hlink
  | turn m turn =>
      obtain ⟨link, hlink, hnet⟩ := Option.map_eq_some_iff.mp hstep
      unfold Link.turn at hlink
      split at hlink
      · split at hlink
        · cases hlink
        · obtain ⟨task', -, rfl⟩ := Option.map_eq_some_iff.mp hlink
          exact .inl (hlinked hnet.symm (taken_write ..).1 (taken_write ..).2)
      · cases hlink
  | receive m order ok =>
      obtain ⟨link, hlink, hnet⟩ := Option.map_eq_some_iff.mp hstep
      unfold Link.receive at hlink
      split at hlink
      · obtain ⟨q, -, hlink⟩ := Option.bind_eq_some_iff.mp hlink
        obtain ⟨task', -, hlink⟩ := Option.bind_eq_some_iff.mp hlink
        cases hlink
        exact .inl (hlinked hnet.symm (taken_write ..).1 (taken_write ..).2)
      · cases hlink
  | arrive m order =>
      simp only [State.step, State.arrive] at hstep
      split at hstep
      · cases hstep
      · rename_i p rest htoBroker
        obtain ⟨q, hcarried, hstep⟩ := Option.bind_eq_some_iff.mp hstep
        obtain ⟨broker, hbroker, hstep⟩ := Option.bind_eq_some_iff.mp hstep
        cases hstep
        refine .inr ⟨_, hbroker, fun n q' heq => ?_, fun n => ?_⟩
        · cases heq
          exact ⟨order, p, htoBroker ▸ List.mem_cons_self .., hcarried⟩
        by_cases hn : n = m
        · subst hn
          rw [State.setLink_links, arrival, if_pos rfl]
          exact ⟨rfl, (List.append_nil _).symm⟩
        · rw [State.setLink_links_of_ne _ _ hn, arrival, if_neg (Ne.symm hn)]
          exact ⟨(List.append_nil _).symm, (List.append_nil _).symm⟩
  | broker b =>
      simp only [State.step, State.brokerStep] at hstep
      split at hstep
      · rename_i hown
        obtain ⟨broker, hbroker, rfl⟩ := Option.map_eq_some_iff.mp hstep
        have hnone : ∀ n, arrival n b = none := by
          intro n
          cases b with
          | event m e =>
              cases e with
              | packet q => cases hown
              | _ => rfl
          | _ => rfl
        refine .inr ⟨b, hbroker, ?_, fun n => ⟨?_, rfl⟩⟩
        · rintro n q rfl
          have hown : (false && !(net.links n).program.isAbsent) = true := hown
          cases hown
        · rw [hnone]
          exact (List.append_nil _).symm
      · cases hstep

theorem State.Wired.traffic_of_step (hw : net.Wired) (h : net.step l = some net') :
    ∃ w : Broker.Traffic, w.state = net'.broker ∧ w.Sound ∧ w.Within Broker.sendable := by
  obtain ⟨w, hstate, hsound, hwithin⟩ := hw.traffic
  rcases broker_of_step h with ⟨hsame, -⟩ | ⟨b, hbroker, hpackets, -⟩
  · exact ⟨w, hstate.trans hsame.symm, hsound, hwithin⟩
  · have hbroker : w.state.step b = some net'.broker := hstate ▸ hbroker
    obtain ⟨w', hstep, hstate'⟩ : ∃ w', w.step b = some w' ∧ w'.state = net'.broker :=
      ⟨_, Broker.Traffic.step_eq_some.mpr ⟨_, hbroker, rfl⟩, rfl⟩
    refine ⟨w', hstate', hsound.step hstep,
      hwithin.step Broker.sendable_kept hsound.broker hsound.filed ?_ ?_ hstep⟩
    · rintro n e rfl
      refine ⟨fun publish ref heq _ _ => ?_, fun connect _ will _ => Broker.typed_willPublish will⟩
      obtain ⟨order, p, hp, hcarried⟩ := hpackets n (.publish publish) (heq ▸ rfl)
      have htype : PacketType.publish = p.packetType := (hw.toBroker n p hp).typed.carried hcarried
      cases p with
      | publish a =>
          obtain ⟨_, heq, htyped, -⟩ := publish_of_carried (hw.toBroker n _ hp).typed hcarried
          cases heq
          exact htyped
      | _ => cases htype
    · intro t c publish sender rest subscribers _ htodo _ sub _
      exact hwithin.todo t _ (htodo ▸ List.mem_cons_self ..)

theorem State.Wired.formed_of_step (hw : net.Wired) (h : net.step l = some net') :
    ∀ t, ∀ a ∈ (net'.broker.tasks t).todo, a.Formed := by
  rcases broker_of_step h with ⟨hsame, -⟩ | ⟨b, hbroker, -⟩
  · rw [hsame]
    exact hw.formed
  · intro t a ha
    have hothers : ∀ {t₀}, (∀ t', t' ≠ t₀ → net'.broker.tasks t' = net.broker.tasks t') →
        (∀ a ∈ (net'.broker.tasks t₀).todo, a.Formed) → a.Formed := by
      intro t₀ hothers hself
      by_cases ht : t = t₀
      · exact hself a (ht ▸ ha)
      · exact hw.formed t a (hothers t ht ▸ ha)
    rcases Broker.step_cases hbroker with ⟨m, e, todo, -, hhandled⟩ |
      ⟨t₀, c, a₀, rest, sh, next, -, hacted⟩ | ⟨token, -, hfired⟩ | ⟨accept, -, heq⟩ | ⟨secs, -, -, heq⟩
    · refine hothers hhandled.others ?_
      rw [hhandled.self]
      exact Broker.formed_of_arises (Broker.Shared.arises_of_handle hhandled.handle)
    · refine hothers hacted.others fun x hx => ?_
      rw [hacted.self] at hx
      rcases Broker.mem_todo_after hx with hx | hx
      · exact Broker.formed_of_performed
          (hw.formed t₀ a₀ (hacted.todo ▸ List.mem_cons_self ..)) hacted.performed x hx
      · exact hw.formed t₀ x (hacted.todo ▸ List.mem_cons_of_mem a₀ hx)
    · refine hothers hfired.others ?_
      rw [hfired.self]
      exact List.forall_mem_singleton.mpr trivial
    · exact hw.formed t a (by rwa [heq] at ha)
    · exact hw.formed t a (by rwa [heq] at ha)

/-- What a handler writes reaches the client in order. -/
theorem State.Wired.output (hw : net.Wired) {c : Broker.Choice} {a : Broker.Action}
    (ha : a ∈ (net.handler n).todo) : ∀ p ∈ output c a, p.Sendable ∧ p.Served := by
  intro p hp
  cases a with
  | write p' =>
      obtain rfl : p = p' := by
        simp only [Network.output] at hp
        split at hp
        · exact List.mem_singleton.mp hp
        · exact (List.not_mem_nil hp).elim
      have hserved : p.Served := hw.formed _ _ ha
      refine ⟨?_, hserved⟩
      cases p with
      | publish publish =>
          obtain ⟨w, hstate, -, hwithin⟩ := hw.traffic
          have hbound := hwithin.todo (.connection n) (.write (.publish publish))
            (by rw [hstate]; exact ha)
          obtain ⟨A, -, hsendable⟩ := hbound
          exact hsendable
      | connAck | pubAck | subAck | unsubAck | pingResponse | disconnect => exact hserved
      | _ => exact hserved.elim
  | _ => exact (List.not_mem_nil hp).elim

theorem mem_written_write {link : Link} {ok : Bool} {sent : List Packet} {p : Packet}
    (hp : p ∈ (link.write ok sent).written) : p ∈ link.written ∨ p ∈ sent := by
  unfold Link.write at hp
  split at hp
  · exact List.mem_append.mp hp
  · exact .inl hp

theorem served_write (link : Link) (ok : Bool) (sent : List Packet) :
    (link.write ok sent).served = link.served := by
  unfold Link.write
  split <;> rfl

theorem State.Wired.written_of_step (hw : net.Wired) (hl : l.Typed) (h : net.step l = some net')
    (n : Nat) : ∀ p ∈ (net'.links n).written, p.Sendable := by
  have hold := hw.written n
  have hsent : ∀ {program : Program} {ok : Bool} {sent : List Packet},
      (∀ p ∈ sent, p.Sendable) →
      ∀ p ∈ (({ net.links n with program } : Link).write ok sent).written, p.Sendable := by
    intro program ok sent hsent p hp
    exact (mem_written_write hp).elim (hold p) (hsent p)
  cases State.moved_of_step h n with
  | still hlink => exact hlink ▸ hold
  | dialed _ _ _ _ _ ok connect _ hconnect _ hlink =>
      exact hlink ▸ hsent (List.forall_mem_singleton.mpr hconnect)
  | greeted _ _ _ _ _ _ _ _ _ _ _ _ hlink => exact hlink ▸ hold
  | abandoned _ _ hlink => exact hlink ▸ hold
  | turned _ _ turn hlabel _ _ _ hlink =>
      exact hlink ▸ hsent (sendable_sends (hlabel ▸ hl : (Label.turn n turn).Typed))
  | received _ _ _ ok _ q _ _ _ _ _ hlink =>
      rw [hlink]
      exact fun p hp => (mem_written_write hp).elim (hold p)
        (sendable_sends (show Turn.Typed (.read (.packet q) ok) from trivial) p)
  | arrived _ _ _ _ _ _ _ _ hlink => exact hlink ▸ hold
  | event _ _ _ _ _ hlink => exact hlink ▸ hold
  | acted _ _ _ _ _ _ hlink => exact hlink ▸ hold

theorem State.Wired.served_of_step (hw : net.Wired) (h : net.step l = some net') (n : Nat) :
    ∀ p ∈ (net'.links n).served, p.Sendable ∧ p.Served := by
  have hold := hw.served n
  cases State.moved_of_step h n with
  | still hlink => exact hlink ▸ hold
  | dialed _ _ _ _ _ _ _ _ _ _ hlink => rwa [hlink, served_write]
  | greeted _ _ _ _ _ _ _ _ _ _ _ _ hlink => exact hlink ▸ hold
  | abandoned _ _ hlink => exact hlink ▸ hold
  | turned _ _ _ _ _ _ _ hlink => rwa [hlink, served_write]
  | received _ _ _ _ _ _ _ _ _ _ _ hlink => rwa [hlink, served_write]
  | arrived _ _ _ _ _ _ _ _ hlink => exact hlink ▸ hold
  | event _ _ _ _ _ hlink => exact hlink ▸ hold
  | acted _ a rest _ _ hacted hlink =>
      rw [hlink]
      exact fun p hp => (List.mem_append.mp hp).elim (hold p)
        (hw.output (hacted.todo ▸ List.mem_cons_self ..) p)

theorem State.Wired.step (hw : net.Wired) (hl : l.Typed) (h : net.step l = some net') :
    net'.Wired where
  traffic := hw.traffic_of_step h
  formed := hw.formed_of_step h
  passing n := passing_of_step (hw.passing n) h
  written := hw.written_of_step hl h
  served := hw.served_of_step h

end

end Network
end Vaux
