import Vaux.Network.Handshake

/-!
# Requests and their answers

A request that a client has written is under way to the broker, or its answer is still to be
written, or the answer is under way or read.  They keep their order, and none is answered
twice; as long as the handler runs none is lost.
-/

namespace Vaux
namespace Network

open Wire Mqtt Machine

/-- The answers that an action will write. -/
def pledge : Broker.Action → List Request
  | .write p => (answer p).toList
  | .subscribe _ p => [.subscribe p.packetId]
  | .unsubscribe _ p => [.unsubscribe p.packetId]
  | _ => []

def pledges (todo : List Broker.Action) : List Request := todo.flatMap pledge

section

variable {sh sh' : Broker.Shared} {t : Broker.TaskId} {c : Broker.Choice} {a : Broker.Action}
  {next : Broker.Next}

theorem pledges_append (xs ys : List Broker.Action) : pledges (xs ++ ys) = pledges xs ++ pledges ys :=
  List.flatMap_append

theorem pledges_eq_nil {todo : List Broker.Action} (h : ∀ a ∈ todo, pledge a = []) :
    pledges todo = [] :=
  List.flatMap_eq_nil_iff.mpr h

theorem pledges_redelivery (ref : Broker.Ref) (pending : List (UInt16 × Publish)) :
    pledges (Broker.Shared.redelivery ref pending) = [] := by
  refine pledges_eq_nil fun a ha => ?_
  obtain ⟨x, -, ha⟩ := List.mem_flatMap.mp ha
  rcases List.mem_cons.mp ha with rfl | ha
  · rfl
  · rw [List.mem_singleton.mp ha]
    rfl

theorem packetId_newWithPacketId (packetId : UInt16) :
    ((SubAck.newWithPacketId packetId).toOption.getD .default).packetId = packetId := by
  unfold SubAck.newWithPacketId
  split
  · rename_i hzero
    exact hzero.symm
  · rfl

/-- An action writes what it has pledged, or it leaves the pledge to the next. -/
theorem pledge_of_performed (hp : Broker.Shared.Performed sh t c a sh' next)
    (hruns : ∀ result, next ≠ .returned result) :
    (output c a).filterMap answer ++ pledges next.more = pledge a := by
  cases hp with
  | write packet hok =>
      have hout : output c (.write packet) = [packet] := by simp [output, hok]
      rw [hout]
      show [packet].filterMap answer ++ [] = (answer packet).toList
      cases h : answer packet <;> simp [h]
  | writeFails | shutdownFails | finish => exact absurd rfl (hruns _)
  | openSession ref =>
      show pledges (Broker.Shared.redelivery ref c.order ++ [.acceptSession ref]) = []
      rw [pledges_append, pledges_redelivery]
      rfl
  | subscribe sessionId p =>
      exact congrArg (fun packetId => [Request.subscribe packetId]) (packetId_newWithPacketId _)
  | route publish sender subscribers =>
      refine pledges_eq_nil fun b hb => ?_
      simp only [Broker.Next.more, List.cons_append, List.mem_cons, List.mem_append, List.mem_map,
        List.not_mem_nil, or_false] at hb
      rcases hb with rfl | ⟨sub, -, rfl⟩ | rfl <;> rfl
  | enter x =>
      show pledges [(sh.choose x).2] = []
      rcases Broker.Shared.choose_cases sh x with ⟨_, _, -, -, -, hholds⟩ |
        ⟨_, _, _, -, -, hholds⟩ | ⟨_, -, -, hholds⟩ | ⟨-, -, -, hholds⟩
      all_goals
        revert hholds
        cases (sh.choose x).2 <;> simp [Broker.Action.holds, pledges, pledge]
  | _ => rfl

/-! ## Events -/

theorem pledges_handlePacket {ref : Broker.Ref} {q : Packet} {todo : List Broker.Action}
    (h : sh.handlePacket ref q = some todo) : pledges todo = (request q).toList := by
  cases q with
  | publish p =>
      simp only [Broker.Shared.handlePacket, Broker.Shared.handlePublish] at h
      simp only [request, offer]
      split at h
      · rename_i hone
        rw [if_pos hone]
        split at h
        · rename_i packetId hid
          cases h
          rw [hid]
          rfl
        · rename_i hid
          cases h
          rw [hid]
          rfl
      · rename_i q hother hq
        cases h
        rw [if_neg fun hone => hother (Outcome.ok.inj (hq.symm.trans hone))]
        rfl
      · cases h
  | disconnect p =>
      simp only [Broker.Shared.handlePacket] at h
      split at h
      · cases h
        rfl
      · cases h
        rfl
  | _ =>
      cases h
      rfl

variable {task : Broker.Task} {e : Broker.Event} {todo : List Broker.Action}

theorem pledges_return (session : Option Broker.Ref) (result : Except Broker.BrokerError Unit) :
    pledges ((session.map sh.ending).getD [] ++ [.finish result]) = [] := by
  cases session <;> rfl

/-- Only a packet obliges the broker to an answer. -/
theorem pledges_of_arises (h : Broker.Shared.Arises sh task e todo) (hpacket : ∀ q, e ≠ .packet q) :
    pledges todo = [] := by
  cases h with
  | control msg =>
      cases msg with
      | deliver publish => rfl
      | disconnect reason =>
          simp only [Broker.Shared.handleControl]
          split
          · split <;> rfl
          · rfl
  | timeout | idle => rfl
  | packet p | ignored p | preConnect p => exact absurd rfl (hpacket p)
  | endOfStream => exact pledges_return _ _
  | readError => exact pledges_return _ _

end

/-! ## The account -/

/-- Each request is answered, on its way, or lost with a handler that has returned. -/
def Link.Exchanged (link : Link) (handler : Broker.Task) : Prop :=
  ∃ lost, (handler.result = none → lost = []) ∧
    link.asked = link.answered ++ (link.toClient.filterMap answer ++ pledges handler.todo) ++ lost ++
      link.toBroker.filterMap request

def State.Exchanged (net : State) (n : Nat) : Prop := (net.links n).Exchanged (net.handler n)

section

variable {net net' : State} {l : Label} {n : Nat}

theorem exchanged_start (config : Broker.Config) (n : Nat) : (State.start config).Exchanged n :=
  ⟨[], fun _ => rfl, rfl⟩

theorem filterMap_cons_toList {α β : Type*} (f : α → Option β) (a : α) (as : List α) :
    (a :: as).filterMap f = (f a).toList ++ as.filterMap f := by
  cases h : f a <;> simp [h]

namespace Link.Exchanged

variable {link : Link} {handler : Broker.Task}

theorem write (h : link.Exchanged handler) (program : Program) (ok : Bool) (sent : List Packet) :
    (({ link with program } : Link).write ok sent).Exchanged handler := by
  obtain ⟨lost, hlost, hasked⟩ := h
  refine ⟨lost, hlost, ?_⟩
  unfold Link.write
  split
  · simp only [asked, answered] at hasked
    simp only [asked, answered, hasked, List.filterMap_append, List.append_assoc]
  · exact hasked

/-- The client reads an answer. -/
theorem hear (h : link.Exchanged handler) (program : Program) {p q : Packet} {rest : List Packet}
    (htoClient : link.toClient = p :: rest) (hanswer : answer q = answer p) :
    ({ link with program, toClient := rest, read := link.read ++ [q] } : Link).Exchanged handler := by
  obtain ⟨lost, hlost, hasked⟩ := h
  refine ⟨lost, hlost, ?_⟩
  rw [htoClient, filterMap_cons_toList, ← hanswer] at hasked
  simp only [asked, answered, List.filterMap_append, filterMap_cons_toList, List.filterMap_nil,
    List.append_nil, List.append_assoc] at hasked ⊢
  exact hasked

end Link.Exchanged

theorem State.Exchanged.act {c : Broker.Choice} {a : Broker.Action} {rest : List Broker.Action}
    {sh : Broker.Shared} {next : Broker.Next} (h : net.Exchanged n) (hw : net.Wired)
    (hacted : Broker.Acted net.broker (.connection n) c net'.broker a rest sh next)
    (hlink : net'.links n = (net.links n).deliver (output c a)) : net'.Exchanged n := by
  obtain ⟨lost, hlost, hasked⟩ := h
  have htodo : (net.handler n).todo = a :: rest := hacted.todo
  have hruns : (net.handler n).result = none := by
    by_contra hended
    cases htodo.symm.trans ((hw.inv.task (.connection n)).done hended)
  have hself : net'.handler n = (net.handler n).after rest next := hacted.self
  have hpledge : pledges (net.handler n).todo = pledge a ++ pledges rest := by
    rw [htodo]
    rfl
  rw [hlost hruns, hpledge] at hasked
  unfold State.Exchanged
  rw [hlink, hself]
  rcases Broker.todo_after (net.handler n) rest next with ⟨result, rfl, hafter⟩ | ⟨hnext, hafter⟩
  · -- the handler returns with what it has not written
    have hsilent : output c a = [] := by
      cases hacted.performed with
      | writeFails packet hok => simp [output, hok]
      | shutdownFails | finish => rfl
    refine ⟨pledge a ++ pledges rest, fun hrunning => (by cases hrunning), ?_⟩
    rw [hsilent, hafter]
    simpa [Link.deliver, Link.asked, Link.answered, pledges] using hasked
  · refine ⟨[], fun _ => rfl, ?_⟩
    have hdone := pledge_of_performed hacted.performed hnext
    rw [hafter, pledges_append]
    rw [← hdone] at hasked
    simpa [Link.deliver, Link.asked, Link.answered, List.append_assoc] using hasked

/-- A handler that is not connected yet reads nothing but the CONNECT. -/
theorem pledges_of_arrived {order : HashOrder} {p q : Packet} {rest : List Packet}
    {todo : List Broker.Action} (hw : net.Wired) (hg : net.Greets n)
    (htoBroker : (net.links n).toBroker = p :: rest) (hcarried : p.carried order = some q)
    (hhandled : Broker.Handled net.broker (.connection n) (.packet q) net'.broker todo) :
    pledges todo = (request q).toList := by
  have hp := hw.toBroker n p (htoBroker ▸ List.mem_cons_self ..)
  cases Broker.Shared.arises_of_handle hhandled.handle with
  | packet _ ref _ _ _ htodo => exact pledges_handlePacket htodo
  | ignored _ hconnected hnone =>
      exact absurd hnone ((hw.inv.task (.connection n)).connected hconnected)
  | preConnect _ hunconnected =>
      have hconnect : ∃ connect, p = .connect connect := by
        cases hprogram : (net.links n).program with
        | absent => cases htoBroker.symm.trans (hg.absent hprogram).2.2.1
        | connecting session =>
            exact (hg.connecting session hprogram).toBroker_connect p
              (htoBroker ▸ List.mem_cons_self ..)
        | started task =>
            have hconnected := hw.connected (hg.started task hprogram) hhandled.ready hhandled.running
            cases hunconnected.symm.trans hconnected
        | gone => exact hg.gone hprogram p (htoBroker ▸ List.mem_cons_self ..)
      obtain ⟨connect, rfl⟩ := hconnect
      have htype := hp.typed.carried hcarried
      cases q with
      | connect connect' =>
          simp only [Broker.Shared.handlePreConnect]
          split <;> rfl
      | _ => cases htype

theorem State.Exchanged.step (h : net.Exchanged n) (hw : net.Wired) (hg : net.Greets n)
    (hstep : net.step l = some net') : net'.Exchanged n := by
  have hidle : Link.Exchanged (net'.links n) (net.handler n) → State.Idles net net' n →
      net'.Exchanged n := by
    intro hlink hidles
    unfold State.Exchanged
    rw [hidles.handler]
    exact hlink
  cases State.moved_of_step hstep n with
  | still hlink hidles => exact hidle (hlink ▸ h) hidles
  | dialed state _ _ _ _ ok connect _ _ _ hlink hidles =>
      refine hidle ?_ hidles
      rw [hlink]
      exact Link.Exchanged.write h _ ok _
  | greeted session _ senders consumers p q rest reply _ htoClient hcarried _ hlink hidles =>
      have hp := hw.toClient n p (htoClient ▸ List.mem_cons_self ..)
      refine hidle ?_ hidles
      rw [hlink]
      exact h.hear _ htoClient (answer_of_carried hp.1.typed hcarried)
  | abandoned _ _ hlink hidles =>
      refine hidle ?_ hidles
      rw [hlink]
      exact h
  | turned _ _ _ _ _ _ _ hlink hidles =>
      refine hidle ?_ hidles
      rw [hlink]
      exact Link.Exchanged.write h _ _ _
  | received _ task' order _ p q rest _ htoClient hcarried _ hlink hidles =>
      have hp := hw.toClient n p (htoClient ▸ List.mem_cons_self ..)
      refine hidle ?_ hidles
      rw [hlink]
      exact (h.hear (.started task') htoClient (answer_of_carried hp.1.typed hcarried)).write
        (.started task') _ _
  | arrived order p q rest todo htoBroker hcarried hhandled hlink =>
      obtain ⟨lost, hlost, hasked⟩ := h
      refine ⟨[], fun _ => rfl, ?_⟩
      have hp := hw.toBroker n p (htoBroker ▸ List.mem_cons_self ..)
      have hready : (net.handler n).todo = [] := hhandled.ready
      have hpledges := pledges_of_arrived hw hg htoBroker hcarried hhandled
      have hself : (net'.handler n).todo = todo := by
        rw [show net'.handler n = _ from hhandled.self]
      rw [hlink, hself, hpledges]
      rw [htoBroker, filterMap_cons_toList, ← request_of_carried hp hcarried, hready,
        hlost hhandled.running] at hasked
      simpa [Link.take, Link.asked, Link.answered, pledges, List.append_assoc] using hasked
  | event e todo hpacket _ hhandled hlink =>
      obtain ⟨lost, hlost, hasked⟩ := h
      refine ⟨lost, fun _ => hlost hhandled.running, ?_⟩
      have hready : (net.handler n).todo = [] := hhandled.ready
      have hself : (net'.handler n).todo = todo := by
        rw [show net'.handler n = _ from hhandled.self]
      rw [hlink, hself,
        pledges_of_arises (Broker.Shared.arises_of_handle hhandled.handle) hpacket]
      rw [hready] at hasked
      exact hasked
  | acted _ _ _ _ _ hacted hlink => exact h.act hw hacted hlink

end

/-! ## Runs -/

section

variable {config : Broker.Config} {ls : List Label} {net : State}

end

end Network
end Vaux
