import Vaux.Client.Calls
import Vaux.Network.Exchange

/-!
# Publishes and their acknowledgements

The way of a QoS 1 PUBLISH from the broker to a client that acknowledges by itself, and of its
PUBACK back.
-/

namespace Vaux
namespace Network

open Wire Mqtt Machine

/-! ## Calls -/

/-- The acknowledgements that get to the stream. -/
def confirmations (call : Client.Call) (sent : List Packet) : List UInt16 :=
  if call.ok then sent.filterMap confirmation else []

section

variable {s : Client.ClientSession} {ok : Bool} {p : Packet}

theorem confirmations_of_none {call : Client.Call} {sent : List Packet}
    (h : ∀ x ∈ sent, confirmation x = none) : confirmations call sent = [] := by
  unfold confirmations
  split
  · exact List.filterMap_eq_nil_iff.mpr h
  · rfl

theorem confirmations_of_write (hp : Client.qosControl p = false) :
    confirmations (.write p ok) (s.writeNext ok p).sent = [] := by
  refine confirmations_of_none fun x hx => ?_
  rcases mem_sent_writeNext hx with ⟨rfl, -⟩ | ⟨publish, packetId, -, rfl⟩
  · cases x with
    | pubAck => cases hp
    | _ => rfl
  · rfl

/-- A QoS 1 PUBLISH is acknowledged, or the call fails. -/
theorem confirmations_of_publish {publish : Publish} (hauto : s.autoAck = true)
    (hruns : (s.handleRecvPublish ok publish).result ≠ .panic) :
    confirmations (.handle (.publish publish) ok) (s.handleRecvPublish ok publish).sent =
        (offer (.publish publish)).toList ∨
      confirmations (.handle (.publish publish) ok) (s.handleRecvPublish ok publish).sent = [] ∧
        ∃ e, (s.handleRecvPublish ok publish).result = .err e := by
  have hnothing : confirmations (.handle (.publish publish) ok) [] = [] :=
    confirmations_of_none fun x hx => (List.not_mem_nil hx).elim
  cases hqos : publish.qos with
  | err | panic =>
      simp only [Client.ClientSession.handleRecvPublish, hqos] at hruns
      exact absurd rfl hruns
  | ok q =>
      cases q with
      | atMostOnce =>
          simp only [Client.ClientSession.handleRecvPublish, offer, hqos]
          exact .inl hnothing
      | atLeastOnce =>
          by_cases hzero : s.qosRecvRemaining = 0
          · simp only [Client.ClientSession.handleRecvPublish, hqos, if_pos hzero]
            exact .inr ⟨hnothing, _, rfl⟩
          · cases hid : publish.packetId with
            | none =>
                simp only [Client.ClientSession.handleRecvPublish, hqos, if_neg hzero, hid] at hruns
                exact absurd rfl hruns
            | some packetId =>
                have hauto' : (s.insertRecv packetId (.newQos1 (.publish publish))).autoAck = true :=
                  hauto
                simp only [Client.ClientSession.handleRecvPublish, Client.ClientSession.recvQos1,
                  offer, hqos, if_neg hzero, hid, if_pos hauto', if_true]
                cases ok with
                | true => exact .inl rfl
                | false => exact .inr ⟨rfl, _, rfl⟩
      | exactlyOnce =>
          cases hid : publish.packetId with
          | none =>
              simp only [Client.ClientSession.handleRecvPublish, hqos, hid] at hruns
              exact absurd rfl hruns
          | some packetId =>
              simp only [Client.ClientSession.handleRecvPublish, Client.ClientSession.recvQos2_eq,
                offer, hqos, hid, if_pos hauto]
              exact .inl (confirmations_of_none (List.forall_mem_singleton.mpr rfl))

theorem confirmations_of_handle (hauto : s.autoAck = true)
    (hruns : (s.handlePacket ok p).result ≠ .panic) :
    confirmations (.handle p ok) (s.handlePacket ok p).sent = (offer p).toList ∨
      confirmations (.handle p ok) (s.handlePacket ok p).sent = [] ∧
        ∃ e, (s.handlePacket ok p).result = .err e := by
  cases p with
  | publish publish =>
      have hruns' : (s.handleRecvPublish ok publish).result ≠ .panic := by
        intro hpanic
        refine hruns ?_
        simp only [Client.ClientSession.handlePacket, Client.ClientSession.passOn, hpanic]
        rfl
      rcases confirmations_of_publish hauto hruns' with hdone | ⟨hnone, e, herr⟩
      · exact .inl hdone
      · refine .inr ⟨hnone, e, ?_⟩
        simp only [Client.ClientSession.handlePacket, Client.ClientSession.passOn, herr]
        rfl
  | pubAck a =>
      refine .inl (confirmations_of_none fun x hx => ?_)
      simp only [Client.ClientSession.handlePacket, Client.ClientSession.passOn,
        Client.ClientSession.sent_handlePubAck] at hx
      exact (List.not_mem_nil hx).elim
  | pubRec a =>
      refine .inl (confirmations_of_none fun x hx => ?_)
      simp only [Client.ClientSession.handlePacket, Client.ClientSession.passOn] at hx
      rcases s.sent_handlePubRec ok a.packetId with h | h
      · rw [h] at hx
        exact (List.not_mem_nil hx).elim
      · rw [h] at hx
        rw [List.mem_singleton.mp hx]
        rfl
  | pubRel a =>
      refine .inl (confirmations_of_none fun x hx => ?_)
      simp only [Client.ClientSession.handlePacket, Client.ClientSession.passOn] at hx
      rcases s.sent_handlePubRel ok a.packetId with h | h
      · rw [h] at hx
        exact (List.not_mem_nil hx).elim
      · rw [h] at hx
        rw [List.mem_singleton.mp hx]
        rfl
  | pubComp a =>
      refine .inl (confirmations_of_none fun x hx => ?_)
      simp only [Client.ClientSession.handlePacket, Client.ClientSession.passOn,
        Client.ClientSession.sent_handlePubComp] at hx
      exact (List.not_mem_nil hx).elim
  | _ => exact .inl (confirmations_of_none fun x hx => (List.not_mem_nil hx).elim)

end

/-! ## The account -/

/-- The client at `n` is dialled with a state that acknowledges by itself. -/
def Label.AutoAcks (n : Nat) : Label → Prop
  | .dial m state _ _ _ _ _ => m = n → state.autoAck = true
  | _ => True

structure State.AutoAcks (net : State) (n : Nat) : Prop where
  connecting : ∀ session, (net.links n).program = .connecting session → session.autoAck = true
  started : ∀ task, (net.links n).program = .started task → task.session.autoAck = true

/-- The client has stopped reading. -/
def Program.Stopped (program : Program) : Prop :=
  ∃ task, program = .started task ∧ task.result ≠ none

/-- Each QoS 1 PUBLISH is acknowledged, on its way, or lost with a task that has returned. -/
def State.Confirmed (net : State) (n : Nat) : Prop :=
  ∃ lost, (lost ≠ [] → (net.links n).program.Stopped) ∧
    (net.links n).offered = (net.links n).confirmed ++
      (net.links n).toBroker.filterMap confirmation ++ lost ++ (net.links n).toClient.filterMap offer

section

variable {net net' : State} {l : Label} {n : Nat}

theorem autoAcks_start (config : Broker.Config) (n : Nat) : (State.start config).AutoAcks n where
  connecting session h := by cases h
  started task h := by cases h

theorem State.AutoAcks.of_program (h : net.AutoAcks n)
    (hprogram : (net'.links n).program = (net.links n).program) : net'.AutoAcks n where
  connecting session hsession := h.connecting session (hprogram.symm.trans hsession)
  started task htask := h.started task (hprogram.symm.trans htask)

theorem autoAcks_of_started {task : Client.Task} (hprogram : (net.links n).program = .started task)
    (h : task.session.autoAck = true) : net.AutoAcks n where
  connecting session hsession := by cases hprogram.symm.trans hsession
  started task' htask := by
    cases hprogram.symm.trans htask
    exact h

theorem autoAcks_of_gone (hprogram : (net.links n).program = .gone) : net.AutoAcks n where
  connecting session hsession := by cases hprogram.symm.trans hsession
  started task htask := by cases hprogram.symm.trans htask

theorem autoAck_of_awaitConnack {session : Client.ClientSession} {q : Packet}
    {reply : Client.Reply ConnAck} (h : session.awaitConnack [] (.packet q) = some reply) :
    reply.session.autoAck = session.autoAck := by
  unfold Client.ClientSession.awaitConnack at h
  split at h
  · obtain ⟨⟨session', result⟩, hconnack, rfl⟩ := Option.map_eq_some_iff.mp h
    unfold Client.ClientSession.handleConnack at hconnack
    split at hconnack
    · cases hconnack
      rfl
    · simp only at hconnack
      split at hconnack
      · cases hconnack
      · cases hconnack
        rfl
      · cases hconnack
        rfl
  all_goals
    cases h
    rfl

theorem State.AutoAcks.step (h : net.AutoAcks n) (hl : l.AutoAcks n)
    (hstep : net.step l = some net') : net'.AutoAcks n := by
  cases State.moved_of_step hstep n with
  | still hlink => exact h.of_program (by rw [hlink])
  | dialed state _ _ _ _ ok _ hlabel _ _ hlink =>
      subst hlabel
      cases ok with
      | true =>
          have hprogram : (net'.links n).program = .connecting (.newFromClient state) := by
            rw [hlink]
            rfl
          refine ⟨fun session hsession => ?_, fun task htask => ?_⟩
          · cases hprogram.symm.trans hsession
            exact hl rfl
          · cases hprogram.symm.trans htask
      | false => exact autoAcks_of_gone (by rw [hlink]; rfl)
  | greeted session _ senders consumers _ _ _ reply hprogram _ _ hawait hlink =>
      cases hresult : reply.result with
      | ok ack =>
          have hstarted : (net'.links n).program = .started (.start reply.session senders consumers) := by
            rw [hlink]
            simp only [greeted, hresult]
          exact autoAcks_of_started hstarted
            ((autoAck_of_awaitConnack hawait).trans (h.connecting session hprogram))
      | err | panic => exact autoAcks_of_gone (by rw [hlink]; simp only [greeted, hresult])
  | abandoned _ _ hlink => exact autoAcks_of_gone (by rw [hlink])
  | turned task task' _ _ hprogram _ hturn hlink =>
      refine autoAcks_of_started (by rw [hlink, program_write]) ?_
      exact (Client.Task.autoAck_of_step hturn).trans (h.started task hprogram)
  | received task task' _ _ _ _ _ hprogram _ _ hturn hlink =>
      refine autoAcks_of_started (by rw [hlink, program_write]) ?_
      exact (Client.Task.autoAck_of_step hturn).trans (h.started task hprogram)
  | arrived _ _ _ _ _ _ _ _ hlink => exact h.of_program (by rw [hlink]; rfl)
  | event _ _ _ _ _ hlink => exact h.of_program (by rw [hlink])
  | acted _ _ _ _ _ _ hlink => exact h.of_program (by rw [hlink]; rfl)

theorem confirmed_start (config : Broker.Config) (n : Nat) : (State.start config).Confirmed n :=
  ⟨[], fun h => absurd rfl h, rfl⟩

/-- A client writes. -/
theorem confirmed_of_write (lost : List UInt16) {link : Link} {ok : Bool} {sent : List Packet}
    (hlink : net'.links n = link.write ok sent)
    (hlost : lost ≠ [] → link.program.Stopped)
    (hoffered : link.offered = link.confirmed ++ link.toBroker.filterMap confirmation ++
      (if ok then sent.filterMap confirmation else []) ++ lost ++ link.toClient.filterMap offer) :
    net'.Confirmed n := by
  refine ⟨lost, ?_, ?_⟩
  · rw [hlink, program_write]
    exact hlost
  · rw [hlink]
    unfold Link.write
    split
    · rename_i hok
      rw [if_pos hok] at hoffered
      simpa [Link.offered, Link.confirmed, List.append_assoc] using hoffered
    · rename_i hok
      rw [if_neg hok] at hoffered
      simpa [List.append_assoc] using hoffered

theorem callOf_turn {task : Client.Task} {turn : Client.Turn} {call : Client.Call}
    (hreads : readsPacket turn = false) (hcall : task.callOf turn = some call) :
    turnOk turn = call.ok ∧ ∃ p ok, call = .write p ok ∧
      (task.session.autoAck = true → Client.qosControl p = false) := by
  cases turn with
  | keepAlive ok =>
      cases hcall
      exact ⟨rfl, _, ok, rfl, fun _ => rfl⟩
  | read r ok =>
      cases r with
      | packet p => cases hreads
      | _ => cases hcall
  | outbound p ok =>
      simp only [Client.Task.callOf] at hcall
      split at hcall
      · cases hcall
      · rename_i hcontrol
        cases hcall
        refine ⟨rfl, p, ok, rfl, fun hauto => ?_⟩
        simpa [hauto] using hcontrol
  | _ => cases hcall

/-- A turn that reads no packet acknowledges none. -/
theorem confirmations_of_turn {task : Client.Task} {turn : Client.Turn}
    (hauto : task.session.autoAck = true) (hreads : readsPacket turn = false) :
    (if turnOk turn then (task.sends turn).filterMap confirmation else []) = [] := by
  cases hcall : task.callOf turn with
  | none =>
      rw [Client.Task.sends_of_callOf_none hcall, List.filterMap_nil, ite_self]
  | some call =>
      obtain ⟨hok, p, ok, rfl, hcontrol⟩ := callOf_turn hreads hcall
      rw [hok, Client.Task.sends_of_callOf hcall]
      exact confirmations_of_write (hcontrol hauto)

theorem State.Confirmed.step (h : net.Confirmed n) (hw : net.Wired) (hg : net.Greets n)
    (hauto : net.AutoAcks n) (hstep : net.step l = some net') : net'.Confirmed n := by
  obtain ⟨lost, hlost, hoffered⟩ := h
  cases State.moved_of_step hstep n with
  | still hlink => exact ⟨lost, by rw [hlink]; exact hlost, by rw [hlink]; exact hoffered⟩
  | dialed _ _ _ _ _ ok connect _ _ habsent hlink =>
      have hnone : lost = [] := by
        by_contra hsome
        obtain ⟨task, htask, -⟩ := hlost hsome
        cases habsent.symm.trans htask
      subst hnone
      refine confirmed_of_write [] hlink (fun hsome => absurd rfl hsome) ?_
      have hsent : (if ok then [Packet.connect connect].filterMap confirmation else []) = [] := by
        cases ok <;> rfl
      rw [hsent, List.append_nil]
      exact hoffered
  | greeted session _ _ _ p q rest _ hprogram htoClient _ _ hlink =>
      have hnone : lost = [] := by
        by_contra hsome
        obtain ⟨task, htask, -⟩ := hlost hsome
        cases hprogram.symm.trans htask
      obtain ⟨-, ack, rfl, -⟩ := (htoClient ▸ hg.connecting session hprogram).first
      rw [htoClient] at hoffered
      refine ⟨lost, fun hsome => absurd hnone hsome, ?_⟩
      rw [hlink]
      exact hoffered
  | abandoned session hprogram hlink =>
      have hnone : lost = [] := by
        by_contra hsome
        obtain ⟨task, htask, -⟩ := hlost hsome
        cases hprogram.symm.trans htask
      refine ⟨lost, fun hsome => absurd hnone hsome, ?_⟩
      rw [hlink]
      exact hoffered
  | turned task task' turn _ hprogram hreads hturn hlink =>
      refine confirmed_of_write lost hlink (fun hsome => ?_) ?_
      · obtain ⟨task₀, htask, hstopped⟩ := hlost hsome
        cases hprogram.symm.trans htask
        exact ⟨task', rfl, Client.Task.result_of_step hturn hstopped⟩
      · rw [confirmations_of_turn (hauto.started task hprogram) hreads, List.append_nil]
        exact hoffered
  | received task task' order ok p q rest hprogram htoClient hcarried hturn hlink =>
      have hcalled : task.Called (.handle q ok) task' := Client.Task.called_of_step hturn rfl
      have hnone : lost = [] := by
        by_contra hsome
        obtain ⟨task₀, htask, hstopped⟩ := hlost hsome
        cases hprogram.symm.trans htask
        exact hstopped hcalled.running
      subst hnone
      have hp := hw.toClient n p (htoClient ▸ List.mem_cons_self ..)
      rw [htoClient, filterMap_cons_toList, ← offer_of_carried hp.1 hcarried] at hoffered
      obtain ⟨hruns, -⟩ := Client.ClientSession.step_eq_some.mp hcalled.step
      rcases confirmations_of_handle (hauto.started task hprogram) hruns with hdone | ⟨hnone, e, herr⟩
      · refine confirmed_of_write [] hlink (fun hsome => absurd rfl hsome) ?_
        show _ = _ ++ _ ++ confirmations (.handle q ok) (task.session.handlePacket ok q).sent ++ _ ++ _
        rw [hdone]
        simpa [Link.offered, Link.confirmed, List.append_assoc] using hoffered
      · refine confirmed_of_write (offer q).toList hlink (fun _ => ?_) ?_
        · refine ⟨task', rfl, fun hrunning => ?_⟩
          obtain ⟨out, hout⟩ := hcalled.succeeds hrunning
          cases herr.symm.trans hout
        · show _ = _ ++ _ ++ confirmations (.handle q ok) (task.session.handlePacket ok q).sent ++ _ ++ _
          rw [hnone]
          simpa [Link.offered, Link.confirmed, List.append_assoc] using hoffered
  | arrived order p q rest todo htoBroker hcarried _ hlink =>
      have hp := hw.toBroker n p (htoBroker ▸ List.mem_cons_self ..)
      rw [htoBroker, filterMap_cons_toList, ← confirmation_of_carried hp.typed hcarried] at hoffered
      refine ⟨lost, by rw [hlink]; exact hlost, ?_⟩
      rw [hlink]
      simpa [Link.take, Link.offered, Link.confirmed, filterMap_cons_toList, List.append_assoc]
        using hoffered
  | event _ _ _ _ _ hlink => exact ⟨lost, by rw [hlink]; exact hlost, by rw [hlink]; exact hoffered⟩
  | acted c a _ _ _ _ hlink =>
      refine ⟨lost, by rw [hlink]; exact hlost, ?_⟩
      rw [hlink]
      simpa [Link.deliver, Link.offered, Link.confirmed, List.append_assoc] using
        congrArg (· ++ (output c a).filterMap offer) hoffered

end

/-! ## Runs -/

section

variable {config : Broker.Config} {ls : List Label} {net : State} {n : Nat}

/-- In every run the PUBACKs that the broker has read are those for its first QoS 1 publishes,
in their order; while the client runs the others are still to come, one each. -/
theorem confirmed_in_order (hls : ∀ l ∈ ls, l.Typed) (hauto : ∀ l ∈ ls, l.AutoAcks n)
    (hrun : run State.step (.start config) ls = some net) :
    (net.links n).confirmed <+: (net.links n).offered ∧
      (¬ (net.links n).program.Stopped →
        (net.links n).offered = (net.links n).confirmed ++
          ((net.links n).toBroker.filterMap confirmation ++
            (net.links n).toClient.filterMap offer)) := by
  have hconfirmed : net.Confirmed n := by
    refine (invariant_of_step (P := fun _ l => l.Typed ∧ l.AutoAcks n)
      (I := fun net => (net.Wired ∧ ∀ n, net.Greets n) ∧ net.AutoAcks n ∧ net.Confirmed n)
      ?_ ⟨⟨wired_start config, greets_start config⟩, autoAcks_start config n,
        confirmed_start config n⟩ (along_of_forall fun l hl => ⟨hls l hl, hauto l hl⟩) hrun).2.2
    rintro net l net' ⟨⟨hw, hg⟩, hauto, h⟩ ⟨hl, hlauto⟩ hstep
    exact ⟨⟨hw.step hl hstep, fun n => (hg n).step hw hstep⟩, hauto.step hlauto hstep,
      h.step hw (hg n) hauto hstep⟩
  obtain ⟨lost, hlost, hoffered⟩ := hconfirmed
  constructor
  · rw [hoffered, List.append_assoc, List.append_assoc]
    exact List.prefix_append ..
  · intro hruns
    obtain rfl : lost = [] := by
      by_contra hsome
      exact hruns (hlost hsome)
    simpa [List.append_assoc] using hoffered

end

end Network
end Vaux
