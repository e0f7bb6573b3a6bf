import Vaux.Network.Provenance
import Vaux.Sockets.Refinement

/-!
# The two ends

What holds between the broker and its clients when they talk over sockets, whatever the sockets
give at a time.  A client's largest packet size is at least the size that its buffer starts with,
the application hands over packets of the type that they say they are, and what was written is
decoded over its own frames and fits the buffers.
-/

namespace Vaux
namespace Sockets

open Wire Mqtt Machine Async

/-! ## What the application does -/

/-- The application hands over packets with the type of their constructor. -/
def Label.Typed : Label → Prop
  | .turn _ t _ => Network.Turn.Typed t
  | _ => True

instance : ∀ l : Label, Decidable l.Typed
  | .turn _ t _ => inferInstanceAs (Decidable (Network.Turn.Typed t))
  | .dial .. | .greet .. | .abandon _ | .receive .. | .arrive _ | .broker .. | .fill .. =>
    isTrue trivial

/-- The client at `n` is dialled with a state that acknowledges by itself. -/
def Label.AutoAcks (n : Nat) : Label → Prop
  | .dial m state _ _ _ _ _ _ => m = n → state.autoAck = true
  | _ => True

instance (n : Nat) : ∀ l : Label, Decidable (l.AutoAcks n)
  | .dial m state _ _ _ _ _ _ => inferInstanceAs (Decidable (m = n → state.autoAck = true))
  | .greet .. | .abandon _ | .turn .. | .receive .. | .arrive _ | .broker .. | .fill .. =>
    isTrue trivial

section

variable {l : Label} {l' : Network.Label} {order : HashOrder} {n : Nat}

theorem Label.Typed.packets (h : l.Typed) (hpackets : l.packets order = some l') : l'.Typed := by
  cases l with
  | turn n t order => exact Option.some.inj hpackets ▸ h
  | fill => cases hpackets
  | _ => exact Option.some.inj hpackets ▸ trivial

theorem Label.AutoAcks.packets (h : l.AutoAcks n) (hpackets : l.packets order = some l') :
    l'.AutoAcks n := by
  cases l with
  | dial => exact Option.some.inj hpackets ▸ h
  | fill => cases hpackets
  | _ => exact Option.some.inj hpackets ▸ trivial

end

/-! ## Runs -/

section

variable {config : Broker.Config} {maxPacketSize : Nat → Nat} {ls ls' : List Label} {s s' : State}
  {n : Nat} {task : Client.Task}

/-- A run from the start is one of the network. -/
theorem network_of_start (hmax : ∀ n, PacketStream.readBufferSize ≤ maxPacketSize n)
    (hlegible : s.Legible) (hls : ∀ l ∈ ls, l.Typed)
    (hrun : run State.step (.start config maxPacketSize) ls = some s) :
    s.Sound ∧ ∃ ls', (∀ l ∈ ls', l.Typed) ∧
      run Network.State.step (.start config) ls' = some s.network := by
  rw [← network_start config maxPacketSize]
  exact network_of_run (sound_start hmax) hlegible
    (fun l hl _ _ hpackets => (hls l hl).packets hpackets) hrun

/-- The start with the sizes that a client has unless it is built with others. -/
def opening : State := .start Broker.defaultConfig fun _ => defaultMaxPacketSize

def actLabels (n k : Nat) : List Label :=
  List.replicate k (.broker (.act (.connection n) {}) .sorted)

def Connection.task? (c : Connection) : Option Client.Task :=
  match c.program with
  | .started task => some task
  | _ => none

theorem program_of_task? {c : Connection} {task : Client.Task} (h : c.task? = some task) :
    c.program = .started task := by
  unfold Connection.task? at h
  split at h
  · rename_i hprogram
    exact (Option.some.inj h) ▸ hprogram
  · cases h

/-- In every run the first packet that a client reads is a CONNACK, and a client that has
started is one that the broker has accepted: its handler, when it reads on, is connected. -/
theorem connected_of_run (hmax : ∀ n, PacketStream.readBufferSize ≤ maxPacketSize n)
    (hlegible : s.Legible) (hls : ∀ l ∈ ls, l.Typed)
    (hrun : run State.step (.start config maxPacketSize) ls = some s) (n : Nat) :
    (∀ session packet pipe, (s.connections n).program = .connecting session →
      (s.connections n).toClient.take = some (packet, pipe) →
        ∃ ack, packet = .connAck ack ∧ (ack.reason = .success → s.network.acceptance n ≠ none)) ∧
    ∀ task, (s.connections n).program = .started task → ∃ A, s.network.acceptance n = some A ∧
      ((s.network.handler n).todo = [] → (s.network.handler n).result = none →
        (s.network.handler n).connected = true ∧
          (s.network.handler n).clientSession = some A.session) := by
  obtain ⟨hs, ls', hls', hrun'⟩ := network_of_start hmax hlegible hls hrun
  obtain ⟨hfirst, hstarted⟩ := Network.connected_of_started hls' hrun' n
  refine ⟨fun session packet pipe hprogram htake => ?_, hstarted⟩
  obtain ⟨order, p, rest, htoClient, hcarried, -⟩ := link_hear (hs n).2 (hlegible n).2 htake
  obtain ⟨ack, rfl, htyped, haccepted⟩ := hfirst session p rest hprogram htoClient
  obtain ⟨ack', rfl, hreason⟩ := connAck_of_carried htyped hcarried
  exact ⟨ack', rfl, fun hsuccess => haccepted (hreason ▸ hsuccess)⟩

/-- A client connects. -/
def greetingLabels (n : Nat) (uuid : String) : List Label :=
  [.dial n (.new uuid) "" none false none true .sorted, .fill n .broker 99, .arrive n] ++
    actLabels n 7 ++
    [.fill n .client 99, .greet n { packetOut := 0, filterChannel := ∅ }
      fun _ => { queue := [], capacity := 16, closed := false }]

theorem connected_of_greetingLabels : ∃ s task A,
    run State.step opening (greetingLabels 0 "x") = some s ∧
      (s.connections 0).program = .started task ∧ s.network.acceptance 0 = some A ∧
      A.sessionId = "vaux-client-x" ∧ (s.network.handler 0).connected = true ∧
      (s.network.handler 0).clientSession = some A.session := by
  have hfacts : (run State.step opening (greetingLabels 0 "x")).map (fun s =>
      (s.legibleOn [0], (s.connections 0).task?.isSome,
        (s.network.acceptance 0).map (·.sessionId), (s.network.handler 0).todo.length,
        (s.network.handler 0).result.isNone)) = some (true, true, some "vaux-client-x", 0, true) := by
    decide +kernel
  obtain ⟨s, hrun, hs⟩ := Option.map_eq_some_iff.mp hfacts
  simp only [Prod.mk.injEq] at hs
  obtain ⟨hlegible, hstarted, haccepted, htodo, hresult⟩ := hs
  obtain ⟨task, htask⟩ := Option.isSome_iff_exists.mp hstarted
  have hprogram := program_of_task? htask
  obtain ⟨A, hA, hready⟩ := (connected_of_run (fun _ => by decide)
    (legible_of_legibleOn hrun (by decide) hlegible) (by decide +kernel) hrun 0).2 task hprogram
  obtain ⟨hconnected, hsession⟩ :=
    hready (List.length_eq_zero_iff.mp htodo) (Option.isNone_iff_eq_none.mp hresult)
  rw [hA] at haccepted
  exact ⟨s, task, A, hrun, hprogram, hA, Option.some.inj haccepted, hconnected, hsession⟩

/-- A client writes a SUBSCRIBE with a user property, two PINGREQs and a PUBLISH, which the broker
gets at once. -/
def swallowingLabels : List Label :=
  greetingLabels 0 "x" ++
    [.turn 0 (.outbound (.subscribe
        { Subscribe.default with
          packetId := 9
          filter := [.new "a" .atMostOnce]
          userProps := UserProperty.new.add "k" "v" }) true) .sorted,
      .turn 0 (.keepAlive true) .sorted, .turn 0 (.keepAlive true) .sorted,
      .turn 0 (.outbound (.publish (Client.publishOf .atLeastOnce none)) true) .sorted,
      .fill 0 .broker 99, .arrive 0] ++
    actLabels 0 2 ++ [.arrive 0] ++ actLabels 0 1 ++
    [.fill 0 .client 99, .receive 0 true .sorted, .receive 0 true .sorted]

-- the four bytes that the SUBSCRIBE is counted too long are those of the PINGREQs
example : (run State.step opening swallowingLabels).map (fun s =>
    (s.legibleOn [0], (s.connections 0).link.asked, (s.connections 0).link.answered)) =
    some (false, [.subscribe 9, .ping, .ping, .publish 1], [.subscribe 9, .publish 1]) := by
  decide +kernel

/-- In every run the PUBACKs that the broker has read are those for its first QoS 1 publishes,
in their order; while the client runs the others are still to come, one each. -/
theorem acknowledged_of_run (hmax : ∀ n, PacketStream.readBufferSize ≤ maxPacketSize n)
    (hlegible : s.Legible) (hls : ∀ l ∈ ls, l.Typed) (hauto : ∀ l ∈ ls, l.AutoAcks n)
    (hrun : run State.step (.start config maxPacketSize) ls = some s) :
    (s.connections n).link.confirmed <+: (s.connections n).link.offered ∧
      (¬ (s.connections n).program.Stopped →
        (s.connections n).link.offered = (s.connections n).link.confirmed ++
          ((s.connections n).link.toBroker.filterMap Network.confirmation ++
            (s.connections n).link.toClient.filterMap Network.offer)) := by
  obtain ⟨-, ls', hls', hrun'⟩ :=
    network_of_run (Q := fun l => l.Typed ∧ l.AutoAcks n) (sound_start hmax) hlegible
      (fun l hl _ _ hpackets => ⟨(hls l hl).packets hpackets, (hauto l hl).packets hpackets⟩) hrun
  exact Network.confirmed_in_order (fun l hl => (hls' l hl).1) (fun l hl => (hls' l hl).2) hrun'

/-- Client 1 publishes, and the broker writes the message to client 0. -/
def forwardLabels : List Label :=
  [.turn 1 (.outbound
      (.publish { Publish.default.setQos .atLeastOnce with topicName := "a" }) true) .sorted,
    .fill 1 .broker 99, .arrive 1] ++
    actLabels 1 5 ++ [.broker (.event 0 .control) .sorted] ++ actLabels 0 1

/-- Client 0 acknowledges the first message and has not read the second, of which its stream has
three bytes. -/
def deliveryLabels : List Label :=
  greetingLabels 0 "x" ++ greetingLabels 1 "y" ++
    [.turn 0 (.outbound
        (.subscribe { Subscribe.default with packetId := 9, filter := [.new "a" .atLeastOnce] }) true)
        .sorted,
      .fill 0 .broker 4, .fill 0 .broker 99, .arrive 0] ++
    actLabels 0 2 ++ forwardLabels ++
    [.fill 0 .client 99, .receive 0 true .sorted, .receive 0 true .sorted, .fill 0 .broker 99,
      .arrive 0] ++
    actLabels 0 1 ++ forwardLabels ++ [.fill 0 .client 2]

theorem deliveryLabels_run : ∃ s, run State.step opening deliveryLabels = some s ∧ s.Legible ∧
    (s.connections 0).link.confirmed = [1] ∧
    (s.connections 0).link.toBroker.filterMap Network.confirmation = [] ∧
    (s.connections 0).link.toClient.filterMap Network.offer = [2] ∧
    ¬ (s.connections 0).program.Stopped ∧ (s.connections 0).link.read.filterMap Network.offer = [1] ∧
    (s.connections 1).link.taken.map (·.packetType) = [.connect, .publish, .publish] ∧
    (s.connections 0).link.served.map (·.packetType) = [.connAck, .subAck, .publish, .publish] := by
  have hfacts : (run State.step opening deliveryLabels).map (fun s => decide
      (s.legibleOn [0, 1] = true ∧ (s.connections 0).link.confirmed = [1] ∧
        (s.connections 0).link.toBroker.filterMap Network.confirmation = [] ∧
        (s.connections 0).link.toClient.filterMap Network.offer = [2] ∧
        (s.connections 0).task?.map (·.result.isNone) = some true ∧
        (s.connections 0).link.read.filterMap Network.offer = [1] ∧
        (s.connections 1).link.taken.map (·.packetType) = [.connect, .publish, .publish] ∧
        (s.connections 0).link.served.map (·.packetType) = [.connAck, .subAck, .publish, .publish])) =
      some true := by
    decide +kernel
  obtain ⟨s, hrun, hs⟩ := Option.map_eq_some_iff.mp hfacts
  obtain ⟨hlegible, hconfirmed, hbetween, hunread, hruns, hrest⟩ := of_decide_eq_true hs
  refine ⟨s, hrun, legible_of_legibleOn hrun (by decide) hlegible, hconfirmed, hbetween, hunread, ?_,
    hrest⟩
  rintro ⟨task, hprogram, hstopped⟩
  rw [Connection.task?, hprogram] at hruns
  exact hstopped (Option.isNone_iff_eq_none.mp (Option.some.inj hruns))

theorem acknowledged_of_deliveryLabels : ∃ s,
    run State.step opening deliveryLabels = some s ∧ (s.connections 0).link.confirmed = [1] ∧
      (s.connections 0).link.toClient.filterMap Network.offer = [2] ∧
      (s.connections 0).link.offered = [1, 2] := by
  obtain ⟨s, hrun, hlegible, hconfirmed, hbetween, hunread, hrunning, -⟩ := deliveryLabels_run
  have hoffered := (acknowledged_of_run (n := 0) (fun _ => by decide) hlegible (by decide +kernel)
    (by decide +kernel) hrun).2 hrunning
  rw [hconfirmed, hbetween, hunread] at hoffered
  exact ⟨s, hrun, hconfirmed, hunread, hoffered⟩

/-- In every run the QoS 1 publishes that wait for their PUBACK are pending under different
identifiers, and the next PUBACK is one that the client expects. -/
theorem awaits_of_run (hmax : ∀ n, PacketStream.readBufferSize ≤ maxPacketSize n)
    (hlegible : s.Legible) (hls : ∀ l ∈ ls, l.Typed)
    (hrun : run State.step (.start config maxPacketSize) ls = some s)
    (hprogram : (s.connections n).program = .started task) :
    Network.Awaits task.session (s.connections n).link.waiting ∧
      ∀ a pipe ok, (s.connections n).toClient.take = some (.pubAck a, pipe) →
        (task.session.handlePacket ok (.pubAck a)).result = .ok (some (.pubAck a)) := by
  obtain ⟨hs, ls', hls', hrun'⟩ := network_of_start hmax hlegible hls hrun
  obtain ⟨hawaits, hexpected⟩ := Network.expected_of_run hls' hrun' (n := n) hprogram
  refine ⟨hawaits, fun a pipe ok htake => ?_⟩
  obtain ⟨order, p, rest, htoClient, hcarried, -⟩ := link_hear (hs n).2 (hlegible n).2 htake
  exact hexpected p rest order a ok htoClient hcarried

/-- A client publishes twice with QoS 1, and the first PUBACK is on its way. -/
def waitingLabels : List Label :=
  greetingLabels 0 "x" ++
    [.turn 0 (.outbound (.publish (Client.publishOf .atLeastOnce none)) true) .sorted,
      .turn 0 (.outbound (.publish (Client.publishOf .atLeastOnce none)) true) .sorted,
      .fill 0 .broker 99, .arrive 0] ++
    actLabels 0 1

theorem awaits_of_waitingLabels : ∃ s task,
    run State.step opening waitingLabels = some s ∧ (s.connections 0).program = .started task ∧
      (s.connections 0).link.waiting = [1, 2] ∧
      (s.connections 0).link.toClient.filterMap Network.confirmation = [1] ∧
      Network.Awaits task.session (s.connections 0).link.waiting := by
  have hfacts : (run State.step opening waitingLabels).map (fun s =>
      (s.legibleOn [0], (s.connections 0).task?.isSome, (s.connections 0).link.waiting,
        (s.connections 0).link.toClient.filterMap Network.confirmation)) =
      some (true, true, [1, 2], [1]) := by
    decide +kernel
  obtain ⟨s, hrun, hs⟩ := Option.map_eq_some_iff.mp hfacts
  simp only [Prod.mk.injEq] at hs
  obtain ⟨hlegible, hstarted, hwaiting, hunread⟩ := hs
  obtain ⟨task, htask⟩ := Option.isSome_iff_exists.mp hstarted
  have hprogram := program_of_task? htask
  exact ⟨s, task, hrun, hprogram, hwaiting, hunread,
    (awaits_of_run (fun _ => by decide) (legible_of_legibleOn hrun (by decide) hlegible)
      (by decide +kernel) hrun hprogram).1⟩

/-- In every run a publish that waits for a PUBREC, or a PUBREL that waits for its PUBCOMP,
waits for good. -/
theorem waits_of_run (hmax : ∀ n, PacketStream.readBufferSize ≤ maxPacketSize n)
    (hlegible : s'.Legible) (hls : ∀ l ∈ ls, l.Typed) (hls' : ∀ l ∈ ls', l.Typed)
    (hrun : run State.step (.start config maxPacketSize) ls = some s)
    (hrun' : run State.step s ls' = some s') (hprogram : (s.connections n).program = .started task)
    {packetId : UInt16} {entry : Client.QoSPacketState}
    (hentry : task.session.pendingQosSend.lookup packetId = some entry)
    (hnext : entry.next ≠ .pubAck) :
    ∃ task', (s'.connections n).program = .started task' ∧
      task'.session.pendingQosSend.lookup packetId = some entry := by
  obtain ⟨hs, ks, hks, hkrun⟩ := network_of_start hmax (hlegible.of_run hrun') hls hrun
  obtain ⟨-, ks', hks', hkrun'⟩ :=
    network_of_run hs hlegible (fun l hl _ _ hpackets => (hls' l hl).packets hpackets) hrun'
  exact Network.retained_of_run (n := n) hks hks' hkrun hkrun' hprogram hentry hnext

/-- A client publishes with QoS 2. -/
def publishingLabels : List Label :=
  greetingLabels 0 "x" ++
    [.turn 0 (.outbound (.publish (Client.publishOf .exactlyOnce none)) true) .sorted]

/-- The broker routes the message. -/
def stalledLabels : List Label := [.fill 0 .broker 99, .arrive 0] ++ actLabels 0 3

theorem waits_of_stalledLabels : ∃ s s' task',
    run State.step opening publishingLabels = some s ∧ run State.step s stalledLabels = some s' ∧
      (s'.connections 0).program = .started task' ∧
      (task'.session.pendingQosSend.lookup 1).map (·.next) = some .pubRec := by
  have hfacts : (run State.step opening publishingLabels).map (fun s =>
      ((s.connections 0).task?.bind fun task =>
          (task.session.pendingQosSend.lookup 1).map (·.next),
        (run State.step s stalledLabels).map (·.legibleOn [0]))) = some (some .pubRec, some true) := by
    decide +kernel
  obtain ⟨s, hrun, hs⟩ := Option.map_eq_some_iff.mp hfacts
  obtain ⟨hpending, hgoes⟩ := Prod.mk.inj hs
  obtain ⟨s', hrun', hlegible⟩ := Option.map_eq_some_iff.mp hgoes
  obtain ⟨task, htask, hlookup⟩ := Option.bind_eq_some_iff.mp hpending
  obtain ⟨entry, hentry, hnext⟩ := Option.map_eq_some_iff.mp hlookup
  have hwhole : run State.step opening (publishingLabels ++ stalledLabels) = some s' :=
    run_append_eq_some.mpr ⟨s, hrun, hrun'⟩
  obtain ⟨task', hprogram', hentry'⟩ := waits_of_run (fun _ => by decide)
    (legible_of_legibleOn hwhole (by decide) hlegible) (by decide +kernel) (by decide +kernel) hrun hrun'
    (program_of_task? htask) hentry (by rw [hnext]; decide)
  exact ⟨s, s', task', hrun, hrun', hprogram', by rw [hentry', Option.map_some, hnext]⟩

/-! ## The broker -/

theorem arrival_of_not_isPacket {e : Broker.Event} (h : e.isPacket = false) (n m : Nat) :
    Network.arrival n (.event m e) = none := by
  cases e with
  | packet => cases h
  | _ => rfl

/-- What the broker does in a step is a step of its own, which reads what its stream has. -/
theorem broker_of_step {l : Label} (h : s.step l = some s') :
    (s'.broker = s.broker ∧ ∀ n, (s'.connections n).link.taken = (s.connections n).link.taken ∧
      (s'.connections n).link.served = (s.connections n).link.served) ∨
    ∃ b, s.broker.step b = some s'.broker ∧ ∀ n,
      (s'.connections n).link.taken = (s.connections n).link.taken ++ (Network.arrival n b).toList ∧
        (s'.connections n).link.served =
          (s.connections n).link.served ++ Network.written s.broker n b := by
  have hkeeps : ∀ {m c}, c.toBroker.read = (s.connections m).toBroker.read →
      c.toClient.written = (s.connections m).toClient.written →
      (s.setConnection m c).broker = s.broker ∧ ∀ n,
        ((s.setConnection m c).connections n).link.taken = (s.connections n).link.taken ∧
          ((s.setConnection m c).connections n).link.served = (s.connections n).link.served := by
    intro m c hread hwritten
    refine ⟨rfl, fun n => ?_⟩
    by_cases heq : n = m
    · subst heq
      rw [connections_setConnection]
      exact ⟨hread, congrArg (List.map Prod.snd) hwritten⟩
    · rw [connections_setConnection_of_ne _ _ heq]
      exact ⟨rfl, rfl⟩
  cases l with
  | dial m =>
      obtain ⟨c, hc, rfl⟩ := Option.map_eq_some_iff.mp h
      obtain ⟨-, rfl⟩ := Connection.dial_cases hc
      exact .inl (hkeeps rfl rfl)
  | greet m =>
      obtain ⟨c, hc, rfl⟩ := Option.map_eq_some_iff.mp h
      obtain ⟨_, _, _, _, -, htake, -, rfl⟩ := Connection.greet_cases hc
      obtain ⟨_, -, rfl⟩ := Pipe.take_cases htake
      exact .inl (hkeeps rfl rfl)
  | abandon m =>
      obtain ⟨c, hc, rfl⟩ := Option.map_eq_some_iff.mp h
      obtain ⟨_, -, rfl⟩ := Connection.abandon_cases hc
      exact .inl (hkeeps rfl rfl)
  | turn m =>
      obtain ⟨c, hc, rfl⟩ := Option.map_eq_some_iff.mp h
      obtain ⟨_, _, -, -, -, rfl⟩ := Connection.turn_cases hc
      exact .inl (hkeeps rfl rfl)
  | receive m =>
      obtain ⟨c, hc, rfl⟩ := Option.map_eq_some_iff.mp h
      obtain ⟨_, _, _, _, -, htake, -, rfl⟩ := Connection.receive_cases hc
      obtain ⟨_, -, rfl⟩ := Pipe.take_cases htake
      exact .inl (hkeeps rfl rfl)
  | arrive m =>
      obtain ⟨packet, toBroker, broker, htake, hbroker, rfl⟩ := State.arrive_cases h
      obtain ⟨_, -, rfl⟩ := Pipe.take_cases htake
      refine .inr ⟨_, hbroker, fun n => ?_⟩
      by_cases heq : n = m
      · subst heq
        rw [connections_setConnection, Network.arrival, if_pos rfl]
        exact ⟨rfl, (List.append_nil _).symm⟩
      · rw [connections_setConnection_of_ne _ _ heq, Network.arrival, if_neg (Ne.symm heq)]
        exact ⟨(List.append_nil _).symm, (List.append_nil _).symm⟩
  | broker b order =>
      obtain ⟨hown, broker, hbroker, hcases⟩ := State.brokerStep_cases h
      have hnone : ∀ n, (Network.arrival n b).toList = [] := by
        intro n
        cases b with
        | event m e =>
            have hpacket := (Bool.and_eq_true_iff.mp hown).1
            rw [arrival_of_not_isPacket (Bool.not_eq_true' _ ▸ hpacket)]
            rfl
        | _ => rfl
      rcases hcases with ⟨rfl, hnothing⟩ | ⟨m, _, -, hothers, rfl⟩
      · refine .inr ⟨b, hbroker, fun n => ?_⟩
        rw [hnone, hnothing, List.append_nil, List.append_nil]
        exact ⟨rfl, rfl⟩
      · refine .inr ⟨b, hbroker, fun n => ?_⟩
        rw [hnone, List.append_nil]
        by_cases heq : n = m
        · subst heq
          rw [connections_setConnection]
          refine ⟨rfl, ?_⟩
          show List.map Prod.snd (_ ++ Pipe.sent true order _) = _
          rw [List.map_append, Pipe.map_sent]
          rfl
        · rw [connections_setConnection_of_ne _ _ heq, hothers n heq, List.append_nil]
          exact ⟨rfl, rfl⟩
  | fill m =>
      obtain ⟨c, hc, rfl⟩ := Option.map_eq_some_iff.mp h
      rcases Connection.fill_cases hc with ⟨_, hfill, rfl⟩ | ⟨_, hfill, rfl⟩
      · obtain ⟨_, -, rfl⟩ := Pipe.fill_cases hfill
        exact .inl (hkeeps rfl rfl)
      · obtain ⟨_, -, rfl⟩ := Pipe.fill_cases hfill
        exact .inl (hkeeps rfl rfl)

/-- In every run the broker takes the steps of a run of its own, whatever was written.  If it was
decoded over its own frames, the packets that are read are those that were written, in order,
with nothing lost but what is under way. -/
theorem projection_of_run (hrun : run State.step (.start config maxPacketSize) ls = some s) :
    ∃ bs w, run Broker.Traffic.step (.start config) bs = some w ∧ s.network.Projects config bs w ∧
      ((∀ n, PacketStream.readBufferSize ≤ maxPacketSize n) → s.Legible →
        ∀ n, (s.connections n).link.Passing) := by
  have hstep : ∀ s l s' bs w, run Broker.Traffic.step (.start config) bs = some w →
      s.network.Projects config bs w → True → State.step s l = some s' →
        ∃ bs' w', run Broker.Traffic.step w bs' = some w' ∧
          s'.network.Projects config (bs ++ bs') w' := by
    intro s l s' bs w hbs hprojects _ hstep
    rcases broker_of_step hstep with ⟨hbroker, hlinks⟩ | ⟨b, hbroker, hlinks⟩
    · exact ⟨[], w, rfl, (List.append_nil bs).symm ▸ hprojects.stay hbroker hlinks⟩
    · exact ⟨[b], hprojects.follow hbs hbroker hlinks⟩
  obtain ⟨bs, w, hbs, hprojects⟩ :=
    simulated_of_step (R := fun s => s.network.Projects config) (P := fun _ _ => True)
      (Network.projects_start config) hstep (along_true _ ls) hrun
  refine ⟨bs, w, hbs, hprojects, fun hmax hlegible => ?_⟩
  obtain ⟨-, ls', -, hrun'⟩ :=
    network_of_run (Q := fun _ => True) (sound_start hmax) hlegible (fun _ _ _ _ _ => trivial) hrun
  exact Network.passing_of_run hrun'

theorem projection_of_deliveryLabels : ∃ s bs w,
    run State.step opening deliveryLabels = some s ∧
      run Broker.Traffic.step (.start Broker.defaultConfig) bs = some w ∧ w.state = s.broker ∧
      (bs.filterMap (Network.arrival 1)).map (·.packetType) = [.connect, .publish, .publish] ∧
      (Network.writtenTo 0 (.start Broker.defaultConfig) bs).map (·.packetType) =
        [.connAck, .subAck, .publish, .publish] ∧
      (s.connections 0).link.Passing := by
  obtain ⟨s, hrun, hlegible, -, -, -, -, -, htaken, hserved⟩ := deliveryLabels_run
  obtain ⟨bs, w, hbs, hprojects, hpassing⟩ := projection_of_run hrun
  refine ⟨s, bs, w, hrun, hbs, hprojects.state, ?_, ?_, hpassing (fun _ => by decide) hlegible 0⟩
  · rw [hprojects.taken]
    exact htaken
  · rw [hprojects.served]
    exact hserved

/-! ## Messages -/

end

end Sockets
end Vaux
