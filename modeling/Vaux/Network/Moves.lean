import Vaux.Network.System

/-!
# What a step does to a connection

A step as it is seen from one connection: its own client or its own handler takes it, a packet
of its own arrives, or it does not change.  Whatever is said of a connection and its handler is
proved by going through these cases.
-/

namespace Vaux
namespace Network

open Wire Mqtt Machine

/-- What an action writes. -/
def output (c : Broker.Choice) : Broker.Action → List Packet
  | .write p => if c.ok then [p] else []
  | _ => []

/-- The packet that the handler of `n` reads in a step of the broker. -/
def arrival (n : Nat) : Broker.Label → Option Packet
  | .event m (.packet q) => if m = n then some q else none
  | _ => none

namespace State

/-- The handler of a connection. -/
def handler (net : State) (n : Nat) : Broker.Task := net.broker.tasks (.connection n)

/-- What the handler of a connection was accepted with. -/
def acceptance (net : State) (n : Nat) : Option Broker.Acceptance :=
  net.broker.history.accepted (.connection n)

/-- The handler of the connection does nothing. -/
structure Idles (net net' : State) (n : Nat) : Prop where
  handler : net'.handler n = net.handler n
  acceptance : net'.acceptance n = net.acceptance n

/-- What the step `l` does to the connection `n`. -/
inductive Moved (net : State) (l : Label) (n : Nat) (net' : State) : Prop where
  | still (hlink : net'.links n = net.links n) (hidles : Idles net net' n)
  | dialed (state : Client.SessionState) (uuid : String) (credentials : Option (String × Bytes))
    (cleanStart : Bool) (will : Option WillMessage) (ok : Bool) (connect : Connect)
    (hlabel : l = .dial n state uuid credentials cleanStart will ok)
    (hconnect : (Packet.connect connect).Typed) (habsent : (net.links n).program = .absent)
    (hlink : net'.links n = { net.links n with
      program := if ok then .connecting (.newFromClient state) else .gone }.write ok
        [.connect connect])
    (hidles : Idles net net' n)
  | greeted (session : Client.ClientSession) (order : HashOrder) (senders : Client.Senders)
    (consumers : Nat → Client.Consumer) (p q : Packet) (rest : List Packet)
    (reply : Client.Reply ConnAck) (hprogram : (net.links n).program = .connecting session)
    (htoClient : (net.links n).toClient = p :: rest) (hcarried : p.carried order = some q)
    (hawait : session.awaitConnack [] (.packet q) = some reply)
    (hlink : net'.links n =
      { net.links n with
        toClient := rest
        read := (net.links n).read ++ [q]
        program := greeted reply senders consumers })
    (hidles : Idles net net' n)
  | abandoned (session : Client.ClientSession) (hprogram : (net.links n).program = .connecting session)
    (hlink : net'.links n = { net.links n with program := .gone })
    (hidles : Idles net net' n)
  | turned (task task' : Client.Task) (turn : Client.Turn) (hlabel : l = .turn n turn)
    (hprogram : (net.links n).program = .started task) (hreads : readsPacket turn = false)
    (hturn : task.step turn = some task')
    (hlink : net'.links n =
      { net.links n with program := .started task' }.write (turnOk turn) (task.sends turn))
    (hidles : Idles net net' n)
  | received (task task' : Client.Task) (order : HashOrder) (ok : Bool) (p q : Packet)
    (rest : List Packet) (hprogram : (net.links n).program = .started task)
    (htoClient : (net.links n).toClient = p :: rest) (hcarried : p.carried order = some q)
    (hturn : task.step (.read (.packet q) ok) = some task')
    (hlink : net'.links n =
      { net.links n with
        program := .started task'
        toClient := rest
        read := (net.links n).read ++ [q] }.write ok
          (task.sends (.read (.packet q) ok)))
    (hidles : Idles net net' n)
  | arrived (order : HashOrder) (p q : Packet) (rest : List Packet) (todo : List Broker.Action)
    (htoBroker : (net.links n).toBroker = p :: rest) (hcarried : p.carried order = some q)
    (hhandled : Broker.Handled net.broker (.connection n) (.packet q) net'.broker todo)
    (hlink : net'.links n = (net.links n).take rest q)
  | event (e : Broker.Event) (todo : List Broker.Action) (hpacket : ∀ q, e ≠ .packet q)
    (hpresent : (net.links n).program ≠ .absent)
    (hhandled : Broker.Handled net.broker (.connection n) e net'.broker todo)
    (hlink : net'.links n = net.links n)
  | acted (c : Broker.Choice) (a : Broker.Action) (rest : List Broker.Action) (sh : Broker.Shared)
    (next : Broker.Next)
    (hacted : Broker.Acted net.broker (.connection n) c net'.broker a rest sh next)
    (hlink : net'.links n = (net.links n).deliver (output c a))

section

variable {net net' : State} {l : Label} {n m : Nat}

theorem setLink_links (net : State) (n : Nat) (link : Link) : (net.setLink n link).links n = link :=
  Function.update_self ..

theorem setLink_links_of_ne (net : State) {n m : Nat} (link : Link) (h : n ≠ m) :
    (net.setLink m link).links n = net.links n :=
  Function.update_of_ne h ..

/-- A step of the client at `m`. -/
theorem moved_of_setLink {link : Link} (h : net' = net.setLink m link)
    (hself : n = m → net'.links n = link → Idles net net' n → Moved net l n net') :
    Moved net l n net' := by
  subst h
  by_cases heq : n = m
  · subst heq
    exact hself rfl (net.setLink_links n link) ⟨rfl, rfl⟩
  · exact .still (net.setLink_links_of_ne link heq) ⟨rfl, rfl⟩

theorem typed_connectPacket (session : Client.ClientSession) (uuid : String)
    (credentials : Option (String × Bytes)) (cleanStart : Bool) (will : Option WillMessage) :
    (Packet.connect (session.connectPacket uuid credentials cleanStart will)).Typed := by
  cases credentials <;> cases will <;> rfl

theorem written_eq {s s' : Broker.State} {t : Broker.TaskId} {c : Broker.Choice} {a : Broker.Action}
    {rest : List Broker.Action} {sh : Broker.Shared} {next : Broker.Next}
    (hacted : Broker.Acted s t c s' a rest sh next) (n : Nat) :
    written s n (.act t c) = if t = .connection n then output c a else [] := by
  simp only [written, hacted.todo]
  cases a with
  | write p =>
      by_cases ht : t = .connection n
      · simp [ht, output]
      · simp [ht]
  | _ => simp [output]

theorem moved_of_arrive {order : HashOrder} (h : net.arrive m order = some net') (n : Nat) :
    Moved net l n net' := by
  unfold arrive at h
  split at h
  · cases h
  · rename_i p rest htoBroker
    obtain ⟨q, hq, h⟩ := Option.bind_eq_some_iff.mp h
    obtain ⟨broker, hbroker, h⟩ := Option.bind_eq_some_iff.mp h
    cases h
    obtain ⟨todo, hhandled⟩ := Broker.handled_of_event hbroker
    by_cases heq : n = m
    · subst heq
      exact .arrived order p q rest todo htoBroker hq hhandled (State.setLink_links ..)
    · refine .still (State.setLink_links_of_ne _ _ heq) ⟨hhandled.others _ ?_, ?_⟩
      · exact fun ht => heq (Broker.TaskId.connection.inj ht)
      · exact congrArg (·.accepted (.connection n)) hhandled.history

theorem moved_of_brokerStep {b : Broker.Label} (h : net.brokerStep b = some net') (n : Nat) :
    Moved net l n net' := by
  unfold brokerStep at h
  split at h
  · rename_i hown
    obtain ⟨broker, hbroker, rfl⟩ := Option.map_eq_some_iff.mp h
    have hsilent : written net.broker n b = [] →
        (net.links n).deliver (written net.broker n b) = net.links n := by
      intro hnone
      simp only [hnone, Link.deliver, List.append_nil]
    rcases Broker.step_cases hbroker with ⟨m, e, todo, rfl, hhandled⟩ |
      ⟨t, c, a, rest, sh, next, rfl, hacted⟩ | ⟨token, rfl, hfired⟩ | ⟨accept, rfl, rfl⟩ |
      ⟨secs, rfl, -, rfl⟩
    · by_cases heq : n = m
      · subst heq
        obtain ⟨hpacket, hpresent⟩ := Bool.and_eq_true_iff.mp hown
        refine .event e todo ?_ ?_ hhandled (hsilent rfl)
        · rintro q rfl
          cases hpacket
        · intro habsent
          rw [habsent] at hpresent
          cases hpresent
      · refine .still (hsilent rfl) ⟨hhandled.others _ ?_, ?_⟩
        · exact fun ht => heq (Broker.TaskId.connection.inj ht)
        · exact congrArg (·.accepted (.connection n)) hhandled.history
    · by_cases heq : t = .connection n
      · subst heq
        refine .acted c a rest sh next hacted ?_
        show (net.links n).deliver _ = _
        rw [written_eq hacted, if_pos rfl]
      · refine .still (hsilent ?_) ⟨hacted.others _ fun ht => heq ht.symm, ?_⟩
        · rw [written_eq hacted, if_neg heq]
        · show broker.history.accepted _ = _
          rw [hacted.history, Broker.accepted_recordNext,
            Broker.accepted_recordAction_of_ne fun ht => heq ht.symm]
          rfl
    · refine .still (hsilent rfl) ⟨hfired.others _ ?_, ?_⟩
      · exact fun ht => by cases ht
      · exact congrArg (·.accepted (.connection n)) hfired.history
    · exact .still (hsilent rfl) ⟨rfl, rfl⟩
    · exact .still (hsilent rfl) ⟨rfl, rfl⟩
  · cases h

theorem moved_of_dial {state : Client.SessionState} {uuid : String}
    {credentials : Option (String × Bytes)} {cleanStart : Bool} {will : Option WillMessage} {ok : Bool}
    (hl : l = .dial m state uuid credentials cleanStart will ok) (h : net.step l = some net') (n : Nat) :
    Moved net l n net' := by
  subst hl
  obtain ⟨link, hlink, heq⟩ := Option.map_eq_some_iff.mp h
  refine moved_of_setLink heq.symm fun hn hself hidles => ?_
  subst hn hself
  unfold Link.dial at hlink
  split at hlink
  · rename_i habsent
    exact .dialed state uuid credentials cleanStart will ok _ rfl
      (typed_connectPacket _ uuid credentials cleanStart will) habsent (Option.some.inj hlink).symm
      hidles
  · cases hlink

theorem moved_of_greet {order : HashOrder} {senders : Client.Senders}
    {consumers : Nat → Client.Consumer} (h : net.step (.greet m order senders consumers) = some net')
    (n : Nat) : Moved net l n net' := by
  obtain ⟨link, hlink, heq⟩ := Option.map_eq_some_iff.mp h
  refine moved_of_setLink heq.symm fun hn hself hidles => ?_
  subst hn hself
  unfold Link.greet at hlink
  split at hlink
  · rename_i session p rest hprogram htoClient
    obtain ⟨q, hcarried, hlink⟩ := Option.bind_eq_some_iff.mp hlink
    obtain ⟨reply, hawait, hlink⟩ := Option.bind_eq_some_iff.mp hlink
    exact .greeted session order senders consumers p q rest reply hprogram htoClient hcarried hawait
      (Option.some.inj hlink).symm hidles
  · cases hlink

theorem moved_of_abandon (h : net.step (.abandon m) = some net') (n : Nat) : Moved net l n net' := by
  obtain ⟨link, hlink, heq⟩ := Option.map_eq_some_iff.mp h
  refine moved_of_setLink heq.symm fun hn hself hidles => ?_
  subst hn hself
  unfold Link.abandon at hlink
  split at hlink
  · rename_i session hprogram
    exact .abandoned session hprogram (Option.some.inj hlink).symm hidles
  · cases hlink

theorem moved_of_turn {turn : Client.Turn} (hl : l = .turn m turn) (h : net.step l = some net')
    (n : Nat) : Moved net l n net' := by
  subst hl
  obtain ⟨link, hlink, heq⟩ := Option.map_eq_some_iff.mp h
  refine moved_of_setLink heq.symm fun hn hself hidles => ?_
  subst hn hself
  unfold Link.turn at hlink
  split at hlink
  · rename_i task hprogram
    split at hlink
    · cases hlink
    · rename_i hreads
      obtain ⟨task', hturn, hlink⟩ := Option.map_eq_some_iff.mp hlink
      exact .turned task task' turn rfl hprogram (Bool.eq_false_iff.mpr hreads) hturn hlink.symm
        hidles
  · cases hlink

theorem moved_of_receive {order : HashOrder} {ok : Bool} (h : net.step (.receive m order ok) = some net')
    (n : Nat) : Moved net l n net' := by
  obtain ⟨link, hlink, heq⟩ := Option.map_eq_some_iff.mp h
  refine moved_of_setLink heq.symm fun hn hself hidles => ?_
  subst hn hself
  unfold Link.receive at hlink
  split at hlink
  · rename_i task p rest hprogram htoClient
    obtain ⟨q, hcarried, hlink⟩ := Option.bind_eq_some_iff.mp hlink
    obtain ⟨task', hturn, hlink⟩ := Option.bind_eq_some_iff.mp hlink
    exact .received task task' order ok p q rest hprogram htoClient hcarried hturn
      (Option.some.inj hlink).symm hidles
  · cases hlink

theorem moved_of_step (h : net.step l = some net') (n : Nat) : Moved net l n net' := by
  cases l with
  | dial => exact moved_of_dial rfl h n
  | greet => exact moved_of_greet h n
  | abandon => exact moved_of_abandon h n
  | turn => exact moved_of_turn rfl h n
  | receive => exact moved_of_receive h n
  | arrive => exact moved_of_arrive h n
  | broker => exact moved_of_brokerStep h n

end

end State

end Network
end Vaux
