import Vaux.Network.Wired

/-!
# The handshake of a connection

The first packet that a client reads is a CONNACK.  If it says Success, the handler at the
other end was accepted for a session, and whatever the client sends from then on is read by a
handler that is connected.
-/

namespace Vaux
namespace Network

open Wire Mqtt Machine

/-! ## What comes of the action at hand -/

section

variable {sh sh' : Broker.Shared} {t : Broker.TaskId} {c : Broker.Choice} {a : Broker.Action}
  {next : Broker.Next}

/-- The handler is left with the refusal of its connection. -/
structure Refusal (ack : ConnAck) : Prop where
  typed : (Packet.connAck ack).Typed
  reason : ack.reason ≠ .success

/-- How `handle_connect` goes on: with one more action, with a refusal, or with the CONNACK of
a session. -/
theorem admitted_of_performed (hp : Broker.Shared.Performed sh t c a sh' next)
    (hconnecting : a.connecting = true) (hformed : a.Formed) :
    (∃ b, next = .go [b] ∧ b.connecting = true) ∨
      (∃ ack, next = .go [.write (.connAck ack), .shutdown] ∧ Refusal ack) ∨
      ∃ x target ref ack, a = .enroll x target ∧
        next = .go [.grantExpiry ref x.sessionExpiry, .write (.connAck ack), .openSession ref] ∧
        Broker.Welcomes ack := by
  cases hp with
  | negotiate | lockOld | oldClosed | oldSent | settle => exact .inl ⟨_, rfl, rfl⟩
  | reject x => exact .inr (.inl ⟨_, rfl, hformed.typed, Reason.noConfusion⟩)
  | enter x =>
      refine .inl ⟨_, rfl, ?_⟩
      rcases Broker.Shared.choose_cases sh x with ⟨_, _, -, -, -, hholds⟩ |
        ⟨_, _, _, -, -, hholds⟩ | ⟨_, -, -, hholds⟩ | ⟨-, -, -, hholds⟩
      all_goals exact Broker.connecting_of_holds hholds
  | register x => exact .inr (.inr ⟨x, none, _, _, rfl, rfl, hformed⟩)
  | adopt x ref =>
      exact .inr (.inr ⟨x, some ref, _, _, rfl, rfl, ⟨hformed.reason, hformed.typed⟩⟩)
  | _ => cases hconnecting

end

/-! ## The stages -/

/-- A connection whose client awaits the CONNACK: its handler, with what is under way to the
broker and to the client. -/
inductive Greeting (accepted : Option Broker.Acceptance) (handler : Broker.Task) :
    List Packet → List Packet → Prop
  | asking (connect : Connect) (htyped : (Packet.connect connect).Typed) (hnone : accepted = none)
    (htodo : ∀ a ∈ handler.todo, a = .shutdown ∨ ∃ result, a = .finish result) :
    Greeting accepted handler [.connect connect] []
  | admitting (a : Broker.Action) (htodo : handler.todo = [a]) (hconnecting : a.connecting = true) :
    Greeting accepted handler [] []
  | refusing (ack : ConnAck) (htodo : handler.todo = [.write (.connAck ack), .shutdown])
    (hack : Refusal ack) : Greeting accepted handler [] []
  | welcoming (granting : List Broker.Action) (ack : ConnAck) (ref : Broker.Ref)
    (hgranting : granting = [] ∨ ∃ expiry, granting = [.grantExpiry ref expiry])
    (htodo : handler.todo = granting ++ [.write (.connAck ack), .openSession ref])
    (hack : Broker.Welcomes ack) (haccepted : accepted ≠ none) : Greeting accepted handler [] []
  | answered (ack : ConnAck) (rest : List Packet) (htyped : (Packet.connAck ack).Typed)
    (haccepted : ack.reason = .success → accepted ≠ none) :
    Greeting accepted handler [] (.connAck ack :: rest)
  | lost (hresult : handler.result ≠ none) : Greeting accepted handler [] []

structure State.Greets (net : State) (n : Nat) : Prop where
  absent : (net.links n).program = .absent →
    net.handler n = .start ∧ net.acceptance n = none ∧ (net.links n).toBroker = [] ∧
      (net.links n).toClient = []
  connecting : ∀ session, (net.links n).program = .connecting session →
    Greeting (net.acceptance n) (net.handler n) (net.links n).toBroker (net.links n).toClient
  started : ∀ task, (net.links n).program = .started task → net.acceptance n ≠ none
  gone : (net.links n).program = .gone →
    ∀ p ∈ (net.links n).toBroker, ∃ connect, p = .connect connect

section

variable {net net' : State} {l : Label} {n : Nat}

theorem greets_start (config : Broker.Config) (n : Nat) : (State.start config).Greets n where
  absent := fun _ => ⟨rfl, rfl, rfl, rfl⟩
  connecting := fun session h => by cases h
  started := fun task h => by cases h
  gone := fun h => by cases h

theorem State.Wired.inv (hw : net.Wired) : Broker.Inv net.broker := by
  obtain ⟨w, hstate, hsound, -⟩ := hw.traffic
  exact hstate ▸ hsound.broker

/-- Before it is accepted a handler has no session and reads no channel. -/
theorem State.Wired.unaccepted (hw : net.Wired) (hnone : net.acceptance n = none) :
    (net.handler n).connected = false ∧ (net.handler n).clientSession = none ∧
      (net.handler n).sessionControl = none := by
  have hclient : (net.handler n).clientSession = none := by
    refine Option.eq_none_iff_forall_ne_some.mpr fun ref href => ?_
    obtain ⟨A, hA, -⟩ := (hw.inv.task (.connection n)).client ref href
    exact Option.some_ne_none A (hA.symm.trans hnone)
  refine ⟨?_, hclient, ?_⟩
  · by_contra hconnected
    exact (hw.inv.task (.connection n)).connected (Bool.not_eq_false _ ▸ hconnected) hclient
  · refine Option.eq_none_iff_forall_ne_some.mpr fun ch hch => ?_
    obtain ⟨w, hstate, -, hwithin⟩ := hw.traffic
    obtain ⟨A, hA, -⟩ := hwithin.reader (.connection n) ch (by rw [hstate]; exact hch)
    rw [hstate] at hA
    exact Option.some_ne_none A (hA.symm.trans hnone)

/-- A connection stays accepted. -/
theorem acceptance_of_acted {c : Broker.Choice} {a : Broker.Action} {rest : List Broker.Action}
    {sh : Broker.Shared} {next : Broker.Next}
    (hacted : Broker.Acted net.broker (.connection n) c net'.broker a rest sh next) :
    net'.acceptance n = net.acceptance n ∨
      (∃ x target, a = .enroll x target) ∧ net'.acceptance n ≠ none := by
  simp only [State.acceptance, hacted.history, Broker.accepted_recordNext]
  cases a with
  | enroll x target =>
      refine .inr ⟨⟨x, target, rfl⟩, ?_⟩
      simp [Broker.History.recordAction]
  | _ => exact .inl (by rw [Broker.accepted_recordAction fun x target heq => by cases heq])

theorem accepted_of_acted {c : Broker.Choice} {a : Broker.Action} {rest : List Broker.Action}
    {sh : Broker.Shared} {next : Broker.Next}
    (hacted : Broker.Acted net.broker (.connection n) c net'.broker a rest sh next)
    (h : net.acceptance n ≠ none) : net'.acceptance n ≠ none := by
  rcases acceptance_of_acted hacted with hsame | ⟨-, hsome⟩
  · exact hsame ▸ h
  · exact hsome

theorem acceptance_of_handled {e : Broker.Event} {todo : List Broker.Action}
    (hhandled : Broker.Handled net.broker (.connection n) e net'.broker todo) :
    net'.acceptance n = net.acceptance n :=
  congrArg (·.accepted (.connection n)) hhandled.history

theorem Greeting.act {c : Broker.Choice} {a : Broker.Action} {rest : List Broker.Action}
    {sh : Broker.Shared} {next : Broker.Next} {toBroker toClient : List Packet} (hw : net.Wired)
    (h : Greeting (net.acceptance n) (net.handler n) toBroker toClient)
    (hacted : Broker.Acted net.broker (.connection n) c net'.broker a rest sh next) :
    Greeting (net'.acceptance n) (net'.handler n) toBroker (toClient ++ output c a) := by
  have hself : net'.handler n = (net.handler n).after rest next := hacted.self
  have hformed : a.Formed := hw.formed _ a (hacted.todo ▸ List.mem_cons_self ..)
  have hp := hacted.performed
  have htodo' : (net.handler n).todo = a :: rest := hacted.todo
  cases h with
  | asking connect htyped hnone htodo =>
      obtain ⟨ha, hrest⟩ := List.forall_mem_cons.mp (htodo' ▸ htodo)
      have hsilent : output c a = [] := by
        rcases ha with rfl | ⟨result, rfl⟩ <;> rfl
      have hsame : net'.acceptance n = none := by
        rcases acceptance_of_acted hacted with hsame | ⟨⟨x, target, heq⟩, -⟩
        · exact hsame.trans hnone
        · rcases ha with rfl | ⟨result, rfl⟩ <;> cases heq
      rw [hsilent]
      refine .asking connect htyped hsame ?_
      rw [hself]
      rcases ha with rfl | ⟨result, rfl⟩
      · cases hp with
        | shutdown => exact hrest
        | shutdownFails => exact fun b hb => (List.not_mem_nil hb).elim
      · cases hp
        exact fun b hb => (List.not_mem_nil hb).elim
  | admitting a' htodo hconnecting =>
      obtain ⟨rfl, rfl⟩ := List.cons.inj (htodo'.symm.trans htodo)
      have hsilent : output c a = [] := by
        cases a with
        | write => cases hconnecting
        | _ => rfl
      rw [hsilent]
      rcases admitted_of_performed hp hconnecting hformed with ⟨b, rfl, hb⟩ | ⟨ack, rfl, hack⟩ |
        ⟨x, target, ref, ack, rfl, rfl, hack⟩
      · exact .admitting b (by rw [hself]; rfl) hb
      · exact .refusing ack (by rw [hself]; rfl) hack
      · refine .welcoming [.grantExpiry ref x.sessionExpiry] ack ref (.inr ⟨_, rfl⟩)
          (by rw [hself]; rfl) hack ?_
        rcases acceptance_of_acted hacted with hsame | ⟨-, hsome⟩
        · simp [State.acceptance, hacted.history, Broker.accepted_recordNext,
            Broker.History.recordAction]
        · exact hsome
  | refusing ack htodo hack =>
      obtain ⟨rfl, rfl⟩ := List.cons.inj (htodo'.symm.trans htodo)
      cases hp with
      | write packet hok =>
          have hout : output c (.write (.connAck ack)) = [.connAck ack] := by
            simp [output, hok]
          rw [hout]
          exact .answered ack [] hack.typed fun hsuccess => absurd hsuccess hack.reason
      | writeFails packet hok =>
          have hout : output c (.write (.connAck ack)) = [] := by simp [output, hok]
          rw [hout]
          exact .lost (by rw [hself]; exact Option.some_ne_none _)
  | welcoming granting ack ref hgranting htodo hack haccepted =>
      have haccepted' := accepted_of_acted hacted haccepted
      rcases hgranting with rfl | ⟨expiry, rfl⟩
      · obtain ⟨rfl, rfl⟩ := List.cons.inj (htodo'.symm.trans htodo)
        cases hp with
        | write packet hok =>
            have hout : output c (.write (.connAck ack)) = [.connAck ack] := by
              simp [output, hok]
            rw [hout]
            exact .answered ack [] hack.typed fun _ => haccepted'
        | writeFails packet hok =>
            have hout : output c (.write (.connAck ack)) = [] := by simp [output, hok]
            rw [hout]
            exact .lost (by rw [hself]; exact Option.some_ne_none _)
      · obtain ⟨rfl, rfl⟩ := List.cons.inj (htodo'.symm.trans htodo)
        have hsettled : (net'.handler n).todo = [.write (.connAck ack), .openSession ref] := by
          rw [hself]
          cases hp <;> rfl
        exact .welcoming [] ack ref (.inl rfl) hsettled hack haccepted'
  | answered ack rest htyped haccepted =>
      exact .answered ack (rest ++ output c a) htyped fun hsuccess =>
        accepted_of_acted hacted (haccepted hsuccess)
  | lost hresult =>
      have hdone := (hw.inv.task (.connection n)).done hresult
      exact (List.cons_ne_nil _ _ (htodo'.symm.trans hdone)).elim

/-- Something other than a packet comes to the handler. -/
theorem Greeting.event {e : Broker.Event} {todo : List Broker.Action}
    {toBroker toClient : List Packet} (hw : net.Wired)
    (h : Greeting (net.acceptance n) (net.handler n) toBroker toClient)
    (hpacket : ∀ q, e ≠ .packet q)
    (hhandled : Broker.Handled net.broker (.connection n) e net'.broker todo) :
    Greeting (net'.acceptance n) (net'.handler n) toBroker toClient := by
  have hready : (net.handler n).todo = [] := hhandled.ready
  cases h with
  | asking connect htyped hnone htodo =>
      refine .asking connect htyped ((acceptance_of_handled hhandled).trans hnone) ?_
      obtain ⟨-, hclient, hcontrol⟩ := hw.unaccepted hnone
      have hself : (net'.handler n).todo = todo := by
        rw [show net'.handler n = _ from hhandled.self]
      rw [hself]
      have hreturn : ∀ result, ∀ b ∈ (((net.handler n).clientSession).map
          net.broker.shared.ending).getD [] ++ [.finish result],
          b = .shutdown ∨ ∃ result, b = .finish result := by
        intro result
        rw [hclient]
        exact List.forall_mem_singleton.mpr (.inr ⟨result, rfl⟩)
      cases Broker.Shared.arises_of_handle hhandled.handle with
      | control msg hmsg =>
          obtain ⟨ch, hch, -⟩ := Option.bind_eq_some_iff.mp hmsg
          exact absurd (hch.symm.trans hcontrol) (Option.some_ne_none ch)
      | timeout ref href => exact absurd (href.symm.trans hclient) (Option.some_ne_none ref)
      | idle =>
          exact List.forall_mem_cons.mpr ⟨.inl rfl, List.forall_mem_singleton.mpr (.inr ⟨_, rfl⟩)⟩
      | packet p | ignored p | preConnect p => exact absurd rfl (hpacket p)
      | endOfStream => exact hreturn _
      | readError => exact hreturn _
  | admitting a htodo => exact (List.cons_ne_nil _ _ (htodo.symm.trans hready)).elim
  | refusing ack htodo => exact (List.cons_ne_nil _ _ (htodo.symm.trans hready)).elim
  | welcoming granting ack ref hgranting htodo =>
      obtain ⟨-, hnil⟩ := List.append_eq_nil_iff.mp (htodo.symm.trans hready)
      cases hnil
  | answered ack rest htyped haccepted =>
      exact .answered ack rest htyped fun hsuccess =>
        (acceptance_of_handled hhandled).symm ▸ haccepted hsuccess
  | lost hresult => exact absurd hhandled.running hresult

/-- The CONNECT arrives. -/
theorem Greeting.arrive {order : HashOrder} {p q : Packet} {rest : List Packet}
    {todo : List Broker.Action} {toClient : List Packet} (hw : net.Wired)
    (h : Greeting (net.acceptance n) (net.handler n) (p :: rest) toClient)
    (hcarried : p.carried order = some q)
    (hhandled : Broker.Handled net.broker (.connection n) (.packet q) net'.broker todo) :
    Greeting (net'.acceptance n) (net'.handler n) rest toClient := by
  cases h with
  | asking connect htyped hnone htodo =>
      obtain ⟨hconnected, -, -⟩ := hw.unaccepted hnone
      have htype : q.packetType = .connect := htyped.carried hcarried
      obtain ⟨connect', rfl⟩ : ∃ connect', q = .connect connect' := by
        cases q with
        | connect connect' => exact ⟨connect', rfl⟩
        | _ => cases htype
      have hself : (net'.handler n).todo = todo := by
        rw [show net'.handler n = _ from hhandled.self]
      cases Broker.Shared.arises_of_handle hhandled.handle with
      | packet p ref _ hconnected' =>
          exact Bool.noConfusion (hconnected.symm.trans hconnected')
      | ignored p hconnected' => exact Bool.noConfusion (hconnected.symm.trans hconnected')
      | preConnect p _ =>
          simp only [Broker.Shared.handlePreConnect] at hself
          split at hself
          · exact .admitting _ hself rfl
          · exact .refusing _ hself ⟨rfl, Reason.noConfusion⟩

theorem program_write (link : Link) (ok : Bool) (sent : List Packet) :
    (link.write ok sent).program = link.program := by
  unfold Link.write
  split <;> rfl

/-- What is under way to the client begins with the CONNACK. -/
theorem Greeting.first {accepted : Option Broker.Acceptance} {handler : Broker.Task} {p : Packet}
    {rest toBroker : List Packet} (h : Greeting accepted handler toBroker (p :: rest)) :
    toBroker = [] ∧ ∃ ack, p = .connAck ack ∧ (Packet.connAck ack).Typed ∧
      (ack.reason = .success → accepted ≠ none) := by
  cases h with
  | answered ack rest htyped haccepted => exact ⟨rfl, ack, rfl, htyped, haccepted⟩

/-- The CONNACK is read. -/
theorem Greeting.greet {session : Client.ClientSession} {order : HashOrder} {p q : Packet}
    {rest toBroker : List Packet} {reply : Client.Reply ConnAck}
    (h : Greeting (net.acceptance n) (net.handler n) toBroker (p :: rest))
    (hcarried : p.carried order = some q) (hawait : session.awaitConnack [] (.packet q) = some reply) :
    toBroker = [] ∧ ∀ ack, reply.result = .ok ack → net.acceptance n ≠ none := by
  obtain ⟨rfl, ack, rfl, htyped, haccepted⟩ := h.first
  refine ⟨rfl, fun ack' hok => ?_⟩
  obtain ⟨b, rfl, hreason⟩ := connAck_of_carried htyped hcarried
  obtain ⟨⟨session', result⟩, hconnack, rfl⟩ := Option.map_eq_some_iff.mp hawait
  refine haccepted (hreason ▸ ?_)
  by_contra hrefused
  unfold Client.ClientSession.handleConnack at hconnack
  rw [if_pos hrefused] at hconnack
  cases hconnack
  cases hok

theorem Greeting.toBroker_connect {accepted : Option Broker.Acceptance} {handler : Broker.Task}
    {toBroker toClient : List Packet} (h : Greeting accepted handler toBroker toClient) :
    ∀ p ∈ toBroker, ∃ connect, p = .connect connect := by
  cases h with
  | asking connect => exact List.forall_mem_singleton.mpr ⟨connect, rfl⟩
  | _ => exact fun p hp => (List.not_mem_nil hp).elim

theorem greets_of_connecting {session : Client.ClientSession}
    (hprogram : (net.links n).program = .connecting session)
    (h : Greeting (net.acceptance n) (net.handler n) (net.links n).toBroker (net.links n).toClient) :
    net.Greets n where
  absent habsent := by cases hprogram.symm.trans habsent
  connecting _ _ := h
  started _ hstarted := by cases hprogram.symm.trans hstarted
  gone hgone := by cases hprogram.symm.trans hgone

theorem greets_of_started {task : Client.Task} (hprogram : (net.links n).program = .started task)
    (h : net.acceptance n ≠ none) : net.Greets n where
  absent habsent := by cases hprogram.symm.trans habsent
  connecting _ hconnecting := by cases hprogram.symm.trans hconnecting
  started _ _ := h
  gone hgone := by cases hprogram.symm.trans hgone

theorem greets_of_gone (hprogram : (net.links n).program = .gone)
    (h : ∀ p ∈ (net.links n).toBroker, ∃ connect, p = .connect connect) : net.Greets n where
  absent habsent := by cases hprogram.symm.trans habsent
  connecting _ hconnecting := by cases hprogram.symm.trans hconnecting
  started _ hstarted := by cases hprogram.symm.trans hstarted
  gone _ := h

/-- The broker's side of a connection moves on; its client does not. -/
theorem State.Greets.serve (hg : net.Greets n)
    (hprogram : (net'.links n).program = (net.links n).program)
    (hpresent : (net.links n).program ≠ .absent)
    (hgreeting : Greeting (net.acceptance n) (net.handler n) (net.links n).toBroker
        (net.links n).toClient →
      Greeting (net'.acceptance n) (net'.handler n) (net'.links n).toBroker (net'.links n).toClient)
    (haccepted : net.acceptance n ≠ none → net'.acceptance n ≠ none)
    (htoBroker : ∀ p ∈ (net'.links n).toBroker, p ∈ (net.links n).toBroker) : net'.Greets n where
  absent habsent := absurd (hprogram.symm.trans habsent) hpresent
  connecting session h := hgreeting (hg.connecting session (hprogram.symm.trans h))
  started task h := haccepted (hg.started task (hprogram.symm.trans h))
  gone h p hp := hg.gone (hprogram.symm.trans h) p (htoBroker p hp)

theorem State.Greets.step (hw : net.Wired) (hg : net.Greets n) (h : net.step l = some net') :
    net'.Greets n := by
  cases State.moved_of_step h n with
  | still hlink hidles =>
      refine ⟨?_, ?_, ?_, ?_⟩
      all_goals simp only [hlink, hidles.handler, hidles.acceptance]
      · exact hg.absent
      · exact hg.connecting
      · exact hg.started
      · exact hg.gone
  | dialed state _ _ _ _ ok connect _ hconnect habsent hlink hidles =>
      obtain ⟨hhandler, hnone, htoBroker, htoClient⟩ := hg.absent habsent
      cases ok with
      | true =>
          have hprogram : (net'.links n).program = .connecting (.newFromClient state) := by
            rw [hlink]
            rfl
          refine greets_of_connecting hprogram ?_
          have hsent : (net'.links n).toBroker = [.connect connect] := by
            rw [hlink]
            exact congrArg (· ++ [Packet.connect connect]) htoBroker
          have hnothing : (net'.links n).toClient = [] := by
            rw [hlink]
            exact htoClient
          rw [hsent, hnothing]
          refine .asking connect hconnect (hidles.acceptance.trans hnone) ?_
          rw [hidles.handler, hhandler]
          exact fun a ha => (List.not_mem_nil ha).elim
      | false =>
          refine greets_of_gone (by rw [hlink]; rfl) fun p hp => ?_
          have hp : p ∈ (net.links n).toBroker := by
            rw [hlink] at hp
            exact hp
          rw [htoBroker] at hp
          exact (List.not_mem_nil hp).elim
  | greeted session order senders consumers p q rest reply hprogram htoClient hcarried hawait hlink
      hidles =>
      obtain ⟨htoBroker, haccepted⟩ := (htoClient ▸ hg.connecting session hprogram).greet hcarried hawait
      cases hresult : reply.result with
      | ok ack =>
          have hstarted : (net'.links n).program = .started (.start reply.session senders consumers) := by
            rw [hlink]
            simp only [greeted, hresult]
          exact greets_of_started hstarted (hidles.acceptance ▸ haccepted ack hresult)
      | err | panic =>
          refine greets_of_gone (by rw [hlink]; simp only [greeted, hresult]) fun p hp => ?_
          have hp : p ∈ (net.links n).toBroker := by
            rw [hlink] at hp
            exact hp
          rw [htoBroker] at hp
          exact (List.not_mem_nil hp).elim
  | abandoned session hprogram hlink hidles =>
      refine greets_of_gone (by rw [hlink]) fun p hp => ?_
      have hp : p ∈ (net.links n).toBroker := by
        rw [hlink] at hp
        exact hp
      exact (hg.connecting session hprogram).toBroker_connect p hp
  | turned task task' _ _ hprogram _ _ hlink hidles =>
      refine greets_of_started (by rw [hlink, program_write]) ?_
      exact hidles.acceptance ▸ hg.started task hprogram
  | received task _ _ _ _ _ _ hprogram _ _ _ hlink hidles =>
      refine greets_of_started (by rw [hlink, program_write]) ?_
      exact hidles.acceptance ▸ hg.started task hprogram
  | arrived order p q rest todo htoBroker hcarried hhandled hlink =>
      have hsame := acceptance_of_handled hhandled
      refine hg.serve (by rw [hlink]; rfl) ?_ ?_ (hsame ▸ id) ?_
      · intro habsent
        cases htoBroker.symm.trans (hg.absent habsent).2.2.1
      · rw [htoBroker, hlink]
        exact fun hgreeting => hgreeting.arrive hw hcarried hhandled
      · rw [hlink, htoBroker]
        exact fun p hp => List.mem_cons_of_mem _ hp
  | event e todo hpacket hpresent hhandled hlink =>
      refine hg.serve (by rw [hlink]) hpresent ?_ (acceptance_of_handled hhandled ▸ id) ?_
      · rw [hlink]
        exact fun hgreeting => hgreeting.event hw hpacket hhandled
      · rw [hlink]
        exact fun p hp => hp
  | acted c a rest sh next hacted hlink =>
      refine hg.serve (by rw [hlink]; rfl) ?_ ?_ (accepted_of_acted hacted) ?_
      · intro habsent
        have htodo : (net.handler n).todo = a :: rest := hacted.todo
        rw [(hg.absent habsent).1] at htodo
        cases htodo
      · rw [hlink]
        exact fun hgreeting => hgreeting.act hw hacted
      · rw [hlink]
        exact fun p hp => hp

end

/-! ## Runs -/

section

variable {config : Broker.Config} {ls : List Label} {net : State}

theorem greets_of_run (hls : ∀ l ∈ ls, l.Typed) (hrun : run State.step (.start config) ls = some net) :
    net.Wired ∧ ∀ n, net.Greets n := by
  refine invariant_of_step (P := fun _ l => l.Typed) (I := fun net => net.Wired ∧ ∀ n, net.Greets n)
    ?_ ⟨wired_start config, greets_start config⟩ (along_of_forall hls) hrun
  intro net l net' hinv hl hstep
  exact ⟨hinv.1.step hl hstep, fun n => (hinv.2 n).step hinv.1 hstep⟩

/-- A handler that was accepted is connected by the time that it reads on. -/
theorem State.Wired.connected {n : Nat} (hw : net.Wired) (haccepted : net.acceptance n ≠ none)
    (htodo : (net.handler n).todo = []) (hresult : (net.handler n).result = none) :
    (net.handler n).connected = true := by
  rcases (hw.inv.task (.connection n)).phase haccepted with hconnected | hended | ⟨ref, hopening⟩
  · exact hconnected
  · exact absurd hresult hended
  · have htodo : (net.broker.tasks (.connection n)).todo = [] := htodo
    rw [htodo] at hopening
    exact (hopening.elim List.not_mem_nil List.not_mem_nil).elim

/-- In every run the first packet that a client reads is a CONNACK, and a client that has
started is one that the broker has accepted: its handler, when it reads on, is connected. -/
theorem connected_of_started (hls : ∀ l ∈ ls, l.Typed)
    (hrun : run State.step (.start config) ls = some net) (n : Nat) :
    (∀ session p rest, (net.links n).program = .connecting session →
      (net.links n).toClient = p :: rest →
        ∃ ack, p = .connAck ack ∧ p.Typed ∧ (ack.reason = .success → net.acceptance n ≠ none)) ∧
    ∀ task, (net.links n).program = .started task → ∃ A, net.acceptance n = some A ∧
      ((net.handler n).todo = [] → (net.handler n).result = none →
        (net.handler n).connected = true ∧ (net.handler n).clientSession = some A.session) := by
  obtain ⟨hw, hg⟩ := greets_of_run hls hrun
  constructor
  · intro session p rest hprogram htoClient
    obtain ⟨-, ack, rfl, htyped, haccepted⟩ := (htoClient ▸ (hg n).connecting session hprogram).first
    exact ⟨ack, rfl, htyped, haccepted⟩
  · intro task hprogram
    obtain ⟨A, hA⟩ := Option.ne_none_iff_exists'.mp ((hg n).started task hprogram)
    refine ⟨A, hA, fun htodo hresult => ?_⟩
    have inv := hw.inv.task (.connection n)
    have hconnected := hw.connected ((hg n).started task hprogram) htodo hresult
    obtain ⟨ref, href⟩ := Option.ne_none_iff_exists'.mp (inv.connected hconnected)
    obtain ⟨A', hA', hsession⟩ := inv.client ref href
    cases hA.symm.trans hA'
    exact ⟨hconnected, hsession ▸ href⟩

end

end Network
end Vaux
