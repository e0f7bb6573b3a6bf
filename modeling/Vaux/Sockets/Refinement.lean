import Vaux.Async.ReadInternal
import Vaux.Machine.Simulation
import Vaux.Network.Moves
import Vaux.Sockets.System

/-!
# From bytes to packets

As long as all that was written is decoded over its own frames and fits the buffers, what a
stream holds and what is on its way to it are the packets that were written and not yet read.
A run of the connections is then one of the network of packets, in which the first packet that
is under way is read next.
-/

namespace Vaux
namespace Sockets

open Wire Mqtt Machine Async

/-! ## One direction -/

/-- The bytes of packets that are written one after the other. -/
def bytesOf (sent : List (HashOrder × Packet)) : Bytes :=
  (sent.map fun x => x.2.bytes x.1).flatten

theorem bytesOf_append (sent more : List (HashOrder × Packet)) :
    bytesOf (sent ++ more) = bytesOf sent ++ bytesOf more := by
  rw [bytesOf, List.map_append, List.flatten_append]
  rfl

namespace Pipe

def unread (pipe : Pipe) : List (HashOrder × Packet) := pipe.written.drop pipe.read.length

/-- All that was written is decoded over its own frame, and is not longer than the buffer may
be that it is read into. -/
def Legible (pipe : Pipe) : Prop :=
  ∀ x ∈ pipe.written, (x.2.carried x.1).isSome ∧ (x.2.bytes x.1).length ≤ pipe.stream.maxBufferSize

instance (pipe : Pipe) : Decidable pipe.Legible :=
  inferInstanceAs (Decidable (∀ x ∈ pipe.written, _))

/-- The bytes that were not decoded yet are those of the packets that were not read yet. -/
structure Sound (pipe : Pipe) : Prop where
  le : pipe.read.length ≤ pipe.written.length
  bytes : ∃ b, pipe.stream.Holds b ∧ b ++ pipe.bytes = bytesOf pipe.unread
  roomy : pipe.stream.Roomy

/-- The direction when more has been written. -/
def push (pipe : Pipe) (sent : List (HashOrder × Packet)) : Pipe :=
  { pipe with bytes := pipe.bytes ++ bytesOf sent, written := pipe.written ++ sent }

section

variable {pipe pipe' : Pipe} {order : HashOrder} {packet : Packet} {packets : List Packet} {ok : Bool}

theorem push_nil (pipe : Pipe) : pipe.push [] = pipe := by
  simp only [push, bytesOf, List.map_nil, List.flatten_nil, List.append_nil]

theorem push_push (pipe : Pipe) (sent more : List (HashOrder × Packet)) :
    (pipe.push sent).push more = pipe.push (sent ++ more) := by
  simp only [push, bytesOf_append, List.append_assoc]

theorem push_of_write (h : pipe.write order packet = some pipe') :
    pipe' = pipe.push [(order, packet)] := by
  unfold write at h
  split at h
  · rename_i dest hdest
    cases h
    simp only [push, bytesOf, List.map_cons, List.map_nil, List.flatten_cons, List.flatten_nil,
      List.append_nil, Packet.bytes, hdest]
  · cases h

/-- The packets that a step has written. -/
def sent (ok : Bool) (order : HashOrder) (packets : List Packet) : List (HashOrder × Packet) :=
  if ok then packets.map fun packet => (order, packet) else []

theorem map_sent (order : HashOrder) (packets : List Packet) :
    (sent true order packets).map Prod.snd = packets := by
  simp [sent, Function.comp_def]

theorem push_of_writes (h : packets.foldlM (fun pipe packet => pipe.write order packet) pipe = some pipe') :
    pipe' = pipe.push (packets.map fun packet => (order, packet)) := by
  induction packets generalizing pipe with
  | nil =>
      cases h
      exact (push_nil _).symm
  | cons packet packets ih =>
      rw [List.foldlM_cons] at h
      obtain ⟨next, hwrite, hrest⟩ := Option.bind_eq_some_iff.mp h
      rw [ih hrest, push_of_write hwrite, push_push]
      rfl

theorem push_of_send (h : pipe.send ok order packets = some pipe') :
    pipe' = pipe.push (sent ok order packets) := by
  cases ok with
  | false =>
      cases h
      exact (push_nil _).symm
  | true => exact push_of_writes h

theorem fill_cases {size : Nat} (h : pipe.fill size = some pipe') :
    ∃ n, n ≤ pipe.stream.room ∧
      pipe' =
        { pipe with
          stream := pipe.stream.receive (pipe.bytes.take n)
          bytes := pipe.bytes.drop n } := by
  unfold fill at h
  split at h
  · simp only at h
    split at h
    · cases h
    · cases h
      exact ⟨_, (Nat.min_le_right ..).trans (Nat.min_le_left ..), rfl⟩
  · cases h

theorem take_cases (h : pipe.take = some (packet, pipe')) :
    ∃ stream, pipe.stream.poll = .packet packet stream ∧
      pipe' = { pipe with stream, read := pipe.read ++ [packet] } := by
  unfold take at h
  split at h
  · rename_i q stream hpoll
    cases h
    exact ⟨stream, hpoll, rfl⟩
  · cases h

theorem maxBufferSize_of_poll {s s' : PacketStream} (h : s.poll = .packet packet s') :
    s'.maxBufferSize = s.maxBufferSize := by
  unfold PacketStream.poll at h
  split at h
  · cases h
  · split at h
    · cases h
    · split at h
      · split at h <;> cases h <;> rfl
      · cases h
      · split at h
        · split at h <;> cases h
        · cases h
      · cases h

/-! ## Moves -/

/-- What becomes of a direction in a step. -/
inductive Moves (pipe pipe' : Pipe) : Prop where
  | pushed (sent : List (HashOrder × Packet)) (h : pipe' = pipe.push sent)
  | filled (size : Nat) (h : pipe.fill size = some pipe')
  | taken (packet : Packet) (h : pipe.take = some (packet, pipe'))

theorem Moves.refl (pipe : Pipe) : Moves pipe pipe := .pushed [] (push_nil pipe).symm

theorem Moves.legible (h : Moves pipe pipe') (hlegible : pipe'.Legible) : pipe.Legible := by
  cases h with
  | pushed sent h =>
      subst h
      exact fun x hx => hlegible x (List.mem_append_left _ hx)
  | filled size h =>
      obtain ⟨n, -, rfl⟩ := fill_cases h
      exact hlegible
  | taken packet h =>
      obtain ⟨stream, hpoll, rfl⟩ := take_cases h
      intro x hx
      rw [← maxBufferSize_of_poll hpoll]
      exact hlegible x hx

theorem unread_push (hle : pipe.read.length ≤ pipe.written.length)
    (sent : List (HashOrder × Packet)) : (pipe.push sent).unread = pipe.unread ++ sent :=
  List.drop_append_of_le_length hle

theorem Sound.push (h : pipe.Sound) (sent : List (HashOrder × Packet)) : (pipe.push sent).Sound where
  le := by
    show pipe.read.length ≤ (pipe.written ++ sent).length
    rw [List.length_append]
    exact Nat.le_add_right_of_le h.le
  bytes := by
    obtain ⟨b, hs, hbytes⟩ := h.bytes
    refine ⟨b, hs, ?_⟩
    rw [unread_push h.le, bytesOf_append, ← hbytes, List.append_assoc]
    rfl
  roomy := h.roomy

theorem Sound.fill (h : pipe.Sound) {size : Nat} (hfill : pipe.fill size = some pipe') :
    pipe'.Sound := by
  obtain ⟨n, hn, rfl⟩ := fill_cases hfill
  obtain ⟨b, hs, hbytes⟩ := h.bytes
  have hchunk : (pipe.bytes.take n).length ≤ pipe.stream.room := by
    rw [List.length_take]
    omega
  obtain ⟨hholds, hroomy⟩ := PacketStream.receive_spec hs h.roomy hchunk
  refine ⟨h.le, ⟨_, hholds, ?_⟩, hroomy⟩
  show b ++ pipe.bytes.take n ++ pipe.bytes.drop n = _
  rw [List.append_assoc, List.take_append_drop, hbytes]
  rfl

/-- What the stream has is the first packet that was not read yet. -/
theorem Sound.take (h : pipe.Sound) (hlegible : pipe.Legible)
    (htake : pipe.take = some (packet, pipe')) :
    pipe'.Sound ∧ ∃ order p, pipe.unread = (order, p) :: pipe'.unread ∧
      p.carried order = some packet := by
  obtain ⟨stream, hpoll, rfl⟩ := take_cases htake
  obtain ⟨b, hs, hbytes⟩ := h.bytes
  obtain ⟨x, rest, hunread⟩ : ∃ x rest, pipe.unread = x :: rest := by
    cases hunread : pipe.unread with
    | nil =>
        rw [hunread] at hbytes
        obtain ⟨rfl, -⟩ := List.append_eq_nil_iff.mp hbytes
        rw [PacketStream.poll_zero hs.length] at hpoll
        cases hpoll
    | cons x rest => exact ⟨x, rest, rfl⟩
  obtain ⟨order, p⟩ := x
  have hmem : (order, p) ∈ pipe.written :=
    List.mem_of_mem_drop (hunread ▸ List.mem_cons_self .. : (order, p) ∈ pipe.unread)
  obtain ⟨hcarried, hfits⟩ := hlegible _ hmem
  obtain ⟨q, hq⟩ := Option.isSome_iff_exists.mp hcarried
  have hframe := frameOf_of_carried hq
  have hall : b ++ pipe.bytes = p.bytes order ++ bytesOf rest := by
    rw [hbytes, hunread]
    rfl
  rcases Reader.frame_cases hall with ⟨b', rfl, hmore⟩ | ⟨hpart, hlt⟩
  · obtain ⟨s', hpoll', hs', hroomy, -⟩ :=
      PacketStream.pollWith_whole hs h.roomy (by simp [hframe.ne_nil])
        (List.length_pos_iff.mpr hframe.ne_nil) (hframe.whole b')
    rw [PacketStream.pollWith_decode, hpoll] at hpoll'
    cases hpoll'
    rw [List.drop_left] at hs'
    have hlt : pipe.read.length < pipe.written.length := by
      by_contra hge
      rw [unread, List.drop_eq_nil_of_le (by omega)] at hunread
      cases hunread
    have hrest : pipe.written.drop (pipe.read ++ [packet]).length = rest := by
      rw [List.length_append, List.length_singleton, ← List.drop_drop]
      show pipe.unread.drop 1 = rest
      rw [hunread, List.drop_one, List.tail_cons]
    refine ⟨⟨?_, ⟨b', hs', ?_⟩, hroomy⟩, order, p, ?_, hq⟩
    · rw [List.length_append, List.length_singleton]
      exact hlt
    · exact hmore.trans (congrArg bytesOf hrest.symm)
    · exact hunread.trans (congrArg _ hrest.symm)
  · have hwants : pipe.stream.pollWith decode pipe.stream.readOffset = .wants :=
      PacketStream.pollWith_part hs (hlt.trans_le hfits) fun _ => hframe.part b hpart hlt
    rw [PacketStream.pollWith_decode, hpoll] at hwants
    cases hwants

theorem Moves.sound (h : Moves pipe pipe') (hs : pipe.Sound) (hlegible : pipe'.Legible) :
    pipe'.Sound := by
  cases id h with
  | pushed sent heq => exact heq ▸ hs.push sent
  | filled size hfill => exact hs.fill hfill
  | taken packet htake => exact (hs.take (h.legible hlegible) htake).1

end

end Pipe
/-! ## The network of packets -/

/-- The connection as the packets that are under way on it. -/
def Connection.link (c : Connection) : Network.Link where
  program := c.program
  toBroker := c.toBroker.unread.map Prod.snd
  toClient := c.toClient.unread.map Prod.snd
  written := c.toBroker.written.map Prod.snd
  read := c.toClient.read
  served := c.toClient.written.map Prod.snd
  taken := c.toBroker.read

def State.network (s : State) : Network.State where
  broker := s.broker
  links n := (s.connections n).link

def State.Legible (s : State) : Prop :=
  ∀ n, (s.connections n).toBroker.Legible ∧ (s.connections n).toClient.Legible

def State.Sound (s : State) : Prop :=
  ∀ n, (s.connections n).toBroker.Sound ∧ (s.connections n).toClient.Sound

/-- The step of the network, if `order` is the one of the packet that is read. -/
def Label.packets (order : HashOrder) : Label → Option Network.Label
  | .dial n state uuid credentials cleanStart will ok _ =>
    some (.dial n state uuid credentials cleanStart will ok)
  | .greet n senders consumers => some (.greet n order senders consumers)
  | .abandon n => some (.abandon n)
  | .turn n t _ => some (.turn n t)
  | .receive n ok _ => some (.receive n order ok)
  | .arrive n => some (.arrive n order)
  | .broker l _ => some (.broker l)
  | .fill .. => none

section

variable {s s' : State} {l : Label} {c c' : Connection} {n m : Nat}

theorem network_start (config : Broker.Config) (maxPacketSize : Nat → Nat) :
    (State.start config maxPacketSize).network = .start config := rfl

theorem connections_setConnection (s : State) (n : Nat) (c : Connection) :
    (s.setConnection n c).connections n = c :=
  Function.update_self ..

theorem connections_setConnection_of_ne (s : State) (c : Connection) (h : m ≠ n) :
    (s.setConnection n c).connections m = s.connections m :=
  Function.update_of_ne h ..

theorem network_setConnection (s : State) (n : Nat) (c : Connection) :
    (s.setConnection n c).network = s.network.setLink n c.link := by
  refine congrArg (Network.State.mk s.broker) (funext fun m => ?_)
  show ((s.setConnection n c).connections m).link = (s.network.setLink n c.link).links m
  by_cases h : m = n
  · subst h
    rw [connections_setConnection, Network.State.setLink_links]
  · rw [connections_setConnection_of_ne s c h, Network.State.setLink_links_of_ne s.network c.link h]
    rfl

theorem link_push (hs : c.toBroker.Sound) (program : Network.Program) (ok : Bool) (order : HashOrder)
    (packets : List Packet) :
    ({ c with program, toBroker := c.toBroker.push (Pipe.sent ok order packets) } : Connection).link =
      ({ c.link with program } : Network.Link).write ok packets := by
  cases ok with
  | false =>
      have hnone : Pipe.sent false order packets = [] := rfl
      rw [hnone, Pipe.push_nil]
      rfl
  | true =>
      have hunread := Pipe.unread_push hs.le (Pipe.sent true order packets)
      simp only [Connection.link, hunread, List.map_append, Pipe.map_sent]
      simp only [Pipe.push, List.map_append, Pipe.map_sent]
      rfl

theorem link_deliver (hs : c.toClient.Sound) (order : HashOrder) (packets : List Packet) :
    ({ c with toClient := c.toClient.push (Pipe.sent true order packets) } : Connection).link =
      c.link.deliver packets := by
  have hunread := Pipe.unread_push hs.le (Pipe.sent true order packets)
  simp only [Connection.link, hunread, List.map_append, Pipe.map_sent]
  simp only [Pipe.push, List.map_append, Pipe.map_sent]
  rfl

/-! ## What a step does to a connection -/

theorem Connection.dial_cases {ok : Bool} {order : HashOrder} {session : Client.ClientSession}
    {connect : Connect} (h : c.dial ok order session connect = some c') :
    c.program = .absent ∧
      c' =
        { c with
          program := if ok then .connecting session else .gone
          toBroker := c.toBroker.push (Pipe.sent ok order [.connect connect]) } := by
  unfold dial at h
  split at h
  · rename_i habsent
    obtain ⟨toBroker, hsend, h⟩ := Option.bind_eq_some_iff.mp h
    cases h
    exact ⟨habsent, by rw [Pipe.push_of_send hsend]⟩
  · cases h

theorem Connection.greet_cases {senders : Client.Senders} {consumers : Nat → Client.Consumer}
    (h : c.greet senders consumers = some c') :
    ∃ session packet toClient reply, c.program = .connecting session ∧
      c.toClient.take = some (packet, toClient) ∧
      session.awaitConnack [] (.packet packet) = some reply ∧
      c' = { c with program := Network.greeted reply senders consumers, toClient } := by
  unfold greet at h
  split at h
  · rename_i session hprogram
    obtain ⟨⟨packet, toClient⟩, htake, h⟩ := Option.bind_eq_some_iff.mp h
    obtain ⟨reply, hawait, h⟩ := Option.bind_eq_some_iff.mp h
    cases h
    exact ⟨session, packet, toClient, reply, hprogram, htake, hawait, rfl⟩
  · cases h

theorem Connection.abandon_cases (h : c.abandon = some c') :
    ∃ session, c.program = .connecting session ∧ c' = { c with program := .gone } := by
  unfold abandon at h
  split at h
  · rename_i session hprogram
    cases h
    exact ⟨session, hprogram, rfl⟩
  · cases h

theorem Connection.turn_cases {t : Client.Turn} {order : HashOrder} (h : c.turn t order = some c') :
    ∃ task task', c.program = .started task ∧ Network.readsPacket t = false ∧
      task.step t = some task' ∧
      c' =
        { c with
          program := .started task'
          toBroker := c.toBroker.push (Pipe.sent (Network.turnOk t) order (task.sends t)) } := by
  unfold turn at h
  split at h
  · rename_i task hprogram
    split at h
    · cases h
    · rename_i hreads
      obtain ⟨task', hturn, h⟩ := Option.bind_eq_some_iff.mp h
      obtain ⟨toBroker, hsend, h⟩ := Option.bind_eq_some_iff.mp h
      cases h
      exact ⟨task, task', hprogram, Bool.eq_false_iff.mpr hreads, hturn, by rw [Pipe.push_of_send hsend]⟩
  · cases h

theorem Connection.receive_cases {ok : Bool} {order : HashOrder} (h : c.receive ok order = some c') :
    ∃ task task' packet toClient, c.program = .started task ∧
      c.toClient.take = some (packet, toClient) ∧
      task.step (.read (.packet packet) ok) = some task' ∧
      c' =
        { program := .started task'
          toBroker := c.toBroker.push (Pipe.sent ok order (task.sends (.read (.packet packet) ok)))
          toClient } := by
  unfold receive at h
  split at h
  · rename_i task hprogram
    obtain ⟨⟨packet, toClient⟩, htake, h⟩ := Option.bind_eq_some_iff.mp h
    obtain ⟨task', hturn, h⟩ := Option.bind_eq_some_iff.mp h
    obtain ⟨toBroker, hsend, h⟩ := Option.bind_eq_some_iff.mp h
    cases h
    exact ⟨task, task', packet, toClient, hprogram, htake, hturn, by rw [Pipe.push_of_send hsend]⟩
  · cases h

theorem Connection.fill_cases {side : Side} {size : Nat} (h : c.fill side size = some c') :
    (∃ toBroker, c.toBroker.fill size = some toBroker ∧ c' = { c with toBroker }) ∨
      ∃ toClient, c.toClient.fill size = some toClient ∧ c' = { c with toClient } := by
  cases side with
  | broker =>
      obtain ⟨toBroker, hfill, rfl⟩ := Option.map_eq_some_iff.mp h
      exact .inl ⟨toBroker, hfill, rfl⟩
  | client =>
      obtain ⟨toClient, hfill, rfl⟩ := Option.map_eq_some_iff.mp h
      exact .inr ⟨toClient, hfill, rfl⟩

theorem State.arrive_cases (h : s.arrive n = some s') :
    ∃ packet toBroker broker, (s.connections n).toBroker.take = some (packet, toBroker) ∧
      s.broker.step (.event n (.packet packet)) = some broker ∧
      s' = { s with broker }.setConnection n { s.connections n with toBroker } := by
  obtain ⟨⟨packet, toBroker⟩, htake, h⟩ := Option.bind_eq_some_iff.mp h
  obtain ⟨broker, hbroker, h⟩ := Option.bind_eq_some_iff.mp h
  cases h
  exact ⟨packet, toBroker, broker, htake, hbroker, rfl⟩

/-- A step of the broker writes to the connection of the handler that takes it, if to any. -/
theorem State.brokerStep_cases {b : Broker.Label} {order : HashOrder} (h : s.brokerStep b order = some s') :
    ownStep s.connections b = true ∧ ∃ broker, s.broker.step b = some broker ∧
      ((s' = { s with broker } ∧ ∀ n, Network.written s.broker n b = []) ∨
        ∃ n c, b = .act (.connection n) c ∧ (∀ m ≠ n, Network.written s.broker m b = []) ∧
          s' = { s with broker }.setConnection n
            { s.connections n with
              toClient := (s.connections n).toClient.push
                (Pipe.sent true order (Network.written s.broker n b)) }) := by
  unfold brokerStep at h
  split at h
  · rename_i hown
    obtain ⟨broker, hbroker, h⟩ := Option.bind_eq_some_iff.mp h
    refine ⟨hown, broker, hbroker, ?_⟩
    have hothers : ∀ {t c} m, t ≠ .connection m → Network.written s.broker m (.act t c) = [] := by
      intro t c m hne
      simp only [Network.written, hne, false_and, if_false]
      split <;> rfl
    split at h
    · rename_i n c _
      obtain ⟨toClient, hsend, h⟩ := Option.bind_eq_some_iff.mp h
      cases h
      refine .inr ⟨n, c, rfl, fun m hne => hothers m fun heq => hne ?_,
        by rw [Pipe.push_of_send hsend]⟩
      exact (Broker.TaskId.connection.inj heq).symm
    · rename_i hact
      cases h
      refine .inl ⟨rfl, fun n => ?_⟩
      cases b with
      | act t c =>
          exact hothers n fun heq => hact n c (by rw [heq])
      | _ => rfl
  · cases h

/-! ## Both directions -/

/-- What becomes of a connection in a step. -/
structure Connection.Moves (c c' : Connection) : Prop where
  toBroker : c.toBroker.Moves c'.toBroker
  toClient : c.toClient.Moves c'.toClient

theorem Connection.Moves.refl (c : Connection) : c.Moves c := ⟨.refl _, .refl _⟩

theorem moves_setConnection {s₀ : State} (hsame : s₀.connections = s.connections)
    (h : (s.connections n).Moves c) (m : Nat) :
    (s.connections m).Moves ((s₀.setConnection n c).connections m) := by
  by_cases heq : m = n
  · subst heq
    rw [connections_setConnection]
    exact h
  · rw [connections_setConnection_of_ne s₀ c heq, hsame]
    exact .refl _

theorem moves_of_step (h : s.step l = some s') (n : Nat) : (s.connections n).Moves (s'.connections n) := by
  cases l with
  | dial m =>
      obtain ⟨c, hc, rfl⟩ := Option.map_eq_some_iff.mp h
      obtain ⟨-, rfl⟩ := Connection.dial_cases hc
      refine moves_setConnection rfl ?_ n
      exact ⟨.pushed _ rfl, .refl _⟩
  | greet m =>
      obtain ⟨c, hc, rfl⟩ := Option.map_eq_some_iff.mp h
      obtain ⟨_, _, _, _, -, htake, -, rfl⟩ := Connection.greet_cases hc
      refine moves_setConnection rfl ?_ n
      exact ⟨.refl _, .taken _ htake⟩
  | abandon m =>
      obtain ⟨c, hc, rfl⟩ := Option.map_eq_some_iff.mp h
      obtain ⟨_, -, rfl⟩ := Connection.abandon_cases hc
      refine moves_setConnection rfl ?_ n
      exact ⟨.refl _, .refl _⟩
  | turn m =>
      obtain ⟨c, hc, rfl⟩ := Option.map_eq_some_iff.mp h
      obtain ⟨_, _, -, -, -, rfl⟩ := Connection.turn_cases hc
      refine moves_setConnection rfl ?_ n
      exact ⟨.pushed _ rfl, .refl _⟩
  | receive m =>
      obtain ⟨c, hc, rfl⟩ := Option.map_eq_some_iff.mp h
      obtain ⟨_, _, _, _, -, htake, -, rfl⟩ := Connection.receive_cases hc
      refine moves_setConnection rfl ?_ n
      exact ⟨.pushed _ rfl, .taken _ htake⟩
  | arrive m =>
      obtain ⟨_, _, _, htake, -, rfl⟩ := State.arrive_cases h
      refine moves_setConnection rfl ?_ n
      exact ⟨.taken _ htake, .refl _⟩
  | broker b =>
      obtain ⟨-, _, -, ⟨rfl, -⟩ | ⟨m, _, -, -, rfl⟩⟩ := State.brokerStep_cases h
      · exact .refl _
      · refine moves_setConnection rfl ?_ n
        exact ⟨.refl _, .pushed _ rfl⟩
  | fill m =>
      obtain ⟨c, hc, rfl⟩ := Option.map_eq_some_iff.mp h
      rcases Connection.fill_cases hc with ⟨_, hfill, rfl⟩ | ⟨_, hfill, rfl⟩
      · refine moves_setConnection rfl ?_ n
        exact ⟨.filled _ hfill, .refl _⟩
      · refine moves_setConnection rfl ?_ n
        exact ⟨.refl _, .filled _ hfill⟩

theorem State.Legible.of_step (hlegible : s'.Legible) (h : s.step l = some s') : s.Legible :=
  fun n => ⟨(moves_of_step h n).toBroker.legible (hlegible n).1,
    (moves_of_step h n).toClient.legible (hlegible n).2⟩

theorem State.Sound.step (hs : s.Sound) (hlegible : s'.Legible) (h : s.step l = some s') : s'.Sound :=
  fun n => ⟨(moves_of_step h n).toBroker.sound (hs n).1 (hlegible n).1,
    (moves_of_step h n).toClient.sound (hs n).2 (hlegible n).2⟩

/-! ## The step of the network -/

theorem link_dial {ok : Bool} {order : HashOrder} {session : Client.ClientSession} {connect : Connect}
    (hs : c.toBroker.Sound) (h : c.dial ok order session connect = some c') :
    c.link.dial ok session connect = some c'.link := by
  obtain ⟨habsent, rfl⟩ := Connection.dial_cases h
  have habsent : c.link.program = .absent := habsent
  rw [link_push hs, Network.Link.dial, habsent]

/-- The client reads what is first on its way. -/
theorem link_hear {packet : Packet} {toClient : Pipe} (hs : c.toClient.Sound)
    (hlegible : c.toClient.Legible) (htake : c.toClient.take = some (packet, toClient)) :
    ∃ order p rest, c.link.toClient = p :: rest ∧ p.carried order = some packet ∧
      ∀ program, ({ c with program, toClient } : Connection).link =
        { c.link with program, toClient := rest, read := c.link.read ++ [packet] } := by
  obtain ⟨-, order, p, hunread, hcarried⟩ := hs.take hlegible htake
  refine ⟨order, p, toClient.unread.map Prod.snd, ?_, hcarried, fun program => ?_⟩
  · rw [Connection.link, hunread, List.map_cons]
  · obtain ⟨stream, -, rfl⟩ := Pipe.take_cases htake
    rfl

theorem link_greet {senders : Client.Senders} {consumers : Nat → Client.Consumer}
    (hs : c.toClient.Sound) (hlegible : c.toClient.Legible) (h : c.greet senders consumers = some c') :
    ∃ order, c.link.greet order senders consumers = some c'.link := by
  obtain ⟨session, packet, toClient, reply, hprogram, htake, hawait, rfl⟩ := Connection.greet_cases h
  obtain ⟨order, p, rest, htoClient, hcarried, hlink⟩ := link_hear hs hlegible htake
  have hprogram : c.link.program = .connecting session := hprogram
  refine ⟨order, ?_⟩
  simp only [hlink, Network.Link.greet, hprogram, htoClient, hcarried, hawait, Option.bind_eq_bind,
    Option.bind_some]

theorem link_abandon (h : c.abandon = some c') : c.link.abandon = some c'.link := by
  obtain ⟨session, hprogram, rfl⟩ := Connection.abandon_cases h
  have hprogram : c.link.program = .connecting session := hprogram
  rw [Network.Link.abandon, hprogram]
  rfl

theorem link_turn {t : Client.Turn} {order : HashOrder} (hs : c.toBroker.Sound)
    (h : c.turn t order = some c') : c.link.turn t = some c'.link := by
  obtain ⟨task, task', hprogram, hreads, hturn, rfl⟩ := Connection.turn_cases h
  have hprogram : c.link.program = .started task := hprogram
  simp only [link_push hs, Network.Link.turn, hprogram, hreads, Bool.false_eq_true, if_false, hturn,
    Option.map_some]

theorem link_receive {ok : Bool} {order : HashOrder} (hs : c.toBroker.Sound) (hs' : c.toClient.Sound)
    (hlegible : c.toClient.Legible) (h : c.receive ok order = some c') :
    ∃ order, c.link.receive order ok = some c'.link := by
  obtain ⟨task, task', packet, toClient, hprogram, htake, hturn, rfl⟩ := Connection.receive_cases h
  obtain ⟨order', p, rest, htoClient, hcarried, hlink⟩ := link_hear hs' hlegible htake
  have hprogram : c.link.program = .started task := hprogram
  have hread : ({ c with program := .started task', toClient } : Connection).toBroker.Sound := hs
  refine ⟨order', ?_⟩
  have hpush := link_push hread (.started task') ok order (task.sends (.read (.packet packet) ok))
  rw [hlink] at hpush
  simp only [Network.Link.receive, hprogram, htoClient, hcarried, hturn, Option.bind_eq_bind,
    Option.bind_some]
  exact congrArg some hpush.symm

theorem network_of_brokerStep {b : Broker.Label} {order : HashOrder} (hs : s.Sound)
    (h : s.brokerStep b order = some s') : s.network.brokerStep b = some s'.network := by
  obtain ⟨hown, broker, hbroker, hcases⟩ := State.brokerStep_cases h
  have hnothing : ∀ m, Network.written s.broker m b = [] →
      (s.network.links m).deliver (Network.written s.broker m b) = s.network.links m := by
    intro m hnone
    simp only [hnone, Network.Link.deliver, List.append_nil]
  have hown : Network.ownStep s.network.links b = true := hown
  have hbroker : s.network.broker.step b = some broker := hbroker
  simp only [Network.State.brokerStep, hown, if_true, hbroker, Option.map_some]
  refine congrArg some ?_
  rcases hcases with ⟨rfl, hnone⟩ | ⟨n, _, -, hothers, rfl⟩
  · exact congrArg (Network.State.mk broker) (funext fun m => hnothing m (hnone m))
  · rw [network_setConnection, link_deliver (hs n).2]
    refine congrArg (Network.State.mk broker) (funext fun m => ?_)
    show _ = Function.update s.network.links n _ m
    by_cases heq : m = n
    · subst heq
      rw [Function.update_self]
      rfl
    · rw [Function.update_of_ne heq]
      exact hnothing m (hothers m heq)

theorem link_fill {side : Side} {size : Nat} (h : c.fill side size = some c') : c'.link = c.link := by
  rcases Connection.fill_cases h with ⟨pipe, hfill, rfl⟩ | ⟨pipe, hfill, rfl⟩
  · obtain ⟨n, -, rfl⟩ := Pipe.fill_cases hfill
    rfl
  · obtain ⟨n, -, rfl⟩ := Pipe.fill_cases hfill
    rfl

/-- A step of the connections is one of the network, or bytes have come that make no packet yet. -/
theorem network_of_step (hs : s.Sound) (hlegible : s.Legible) (h : s.step l = some s') :
    s'.network = s.network ∨
      ∃ order l', l.packets order = some l' ∧ s.network.step l' = some s'.network := by
  have hset : ∀ {n c} {link : Option Network.Link}, link = some c.link →
      link.map (s.network.setLink n) = some (s.setConnection n c).network := by
    rintro n c link rfl
    rw [network_setConnection]
    rfl
  cases l with
  | dial n state uuid credentials cleanStart will ok order =>
      obtain ⟨c, hc, rfl⟩ := Option.map_eq_some_iff.mp h
      exact .inr ⟨order, _, rfl, hset (link_dial (hs n).1 hc)⟩
  | greet n senders consumers =>
      obtain ⟨c, hc, rfl⟩ := Option.map_eq_some_iff.mp h
      obtain ⟨order, hgreet⟩ := link_greet (hs n).2 (hlegible n).2 hc
      exact .inr ⟨order, _, rfl, hset hgreet⟩
  | abandon n =>
      obtain ⟨c, hc, rfl⟩ := Option.map_eq_some_iff.mp h
      exact .inr ⟨.sorted, _, rfl, hset (link_abandon hc)⟩
  | turn n t order =>
      obtain ⟨c, hc, rfl⟩ := Option.map_eq_some_iff.mp h
      exact .inr ⟨order, _, rfl, hset (link_turn (hs n).1 hc)⟩
  | receive n ok order =>
      obtain ⟨c, hc, rfl⟩ := Option.map_eq_some_iff.mp h
      obtain ⟨order', hreceive⟩ := link_receive (hs n).1 (hs n).2 (hlegible n).2 hc
      exact .inr ⟨order', _, rfl, hset hreceive⟩
  | arrive n =>
      obtain ⟨packet, toBroker, broker, htake, hbroker, rfl⟩ := State.arrive_cases h
      obtain ⟨-, order, p, hunread, hcarried⟩ := (hs n).1.take (hlegible n).1 htake
      obtain ⟨stream, -, rfl⟩ := Pipe.take_cases htake
      refine .inr ⟨order, _, rfl, ?_⟩
      have htoBroker : (s.network.links n).toBroker = p :: _ :=
        (congrArg (List.map Prod.snd) hunread).trans (List.map_cons ..)
      have hbroker : s.network.broker.step (.event n (.packet packet)) = some broker := hbroker
      simp only [Network.State.step, Network.State.arrive, htoBroker, hcarried, hbroker,
        Option.bind_eq_bind, Option.bind_some, network_setConnection]
      rfl
  | broker b order => exact .inr ⟨order, _, rfl, network_of_brokerStep hs h⟩
  | fill n side size =>
      obtain ⟨c, hc, rfl⟩ := Option.map_eq_some_iff.mp h
      refine .inl ?_
      rw [network_setConnection, link_fill hc]
      exact congrArg (Network.State.mk s.broker) (Function.update_eq_self n s.network.links)

/-! ## Runs -/

theorem sound_pipe {initialBufferSize maxBufferSize : Option Nat}
    (h : (PacketStream.new initialBufferSize maxBufferSize).Roomy) :
    (Pipe.start (.new initialBufferSize maxBufferSize)).Sound where
  le := Nat.le_refl 0
  bytes := ⟨[], PacketStream.new_holds .., rfl⟩
  roomy := h

theorem sound_start {config : Broker.Config} {maxPacketSize : Nat → Nat}
    (hmax : ∀ n, PacketStream.readBufferSize ≤ maxPacketSize n) :
    (State.start config maxPacketSize).Sound :=
  fun n => ⟨sound_pipe (PacketStream.new_roomy (by decide) (by decide)),
    sound_pipe (PacketStream.new_roomy (show 1 ≤ PacketStream.readBufferSize by decide) (hmax n))⟩

variable {ls : List Label}

theorem State.Legible.of_run (hlegible : s'.Legible) (hrun : run State.step s ls = some s') :
    s.Legible := by
  induction ls generalizing s with
  | nil =>
      cases hrun
      exact hlegible
  | cons l ls ih =>
      obtain ⟨t, hstep, hrest⟩ := run_cons_eq_some.mp hrun
      exact (ih hrest).of_step hstep

theorem along_legible (hlegible : s'.Legible) (hrun : run State.step s ls = some s') :
    Along State.step (fun s l => ∀ s', s.step l = some s' → s'.Legible) s ls := by
  induction ls generalizing s with
  | nil => trivial
  | cons l ls ih =>
      obtain ⟨t, hstep, hrest⟩ := run_cons_eq_some.mp hrun
      refine Along.cons (fun t' hstep' => ?_) hstep (ih hrest)
      cases hstep.symm.trans hstep'
      exact hlegible.of_run hrest

/-- Every run of the connections is one of the network, and what holds of its labels holds of the
labels of the network. -/
theorem network_of_run {Q : Network.Label → Prop} (hs : s.Sound) (hlegible : s'.Legible)
    (hQ : ∀ l ∈ ls, ∀ order l', l.packets order = some l' → Q l')
    (hrun : run State.step s ls = some s') :
    s'.Sound ∧ ∃ ls', (∀ l ∈ ls', Q l) ∧ run Network.State.step s.network ls' = some s'.network := by
  have hstep : ∀ (t : State) l t' ks net, run Network.State.step s.network ks = some net →
      (t.Sound ∧ net = t.network ∧ ∀ l ∈ ks, Q l) →
      ((∀ t', t.step l = some t' → t'.Legible) ∧ ∀ order l', l.packets order = some l' → Q l') →
      t.step l = some t' →
        ∃ ks' net', run Network.State.step net ks' = some net' ∧
          t'.Sound ∧ net' = t'.network ∧ ∀ l ∈ ks ++ ks', Q l := by
    rintro t l t' ks net - ⟨ht, rfl, hks⟩ ⟨hlegible, hQ⟩ hstep
    have ht' := hlegible t' hstep
    rcases network_of_step ht (ht'.of_step hstep) hstep with hsame | ⟨order, l', hpackets, hstep'⟩
    · exact ⟨[], _, rfl, ht.step ht' hstep, hsame.symm, by rwa [List.append_nil]⟩
    · refine ⟨[l'], _, run_cons_eq_some.mpr ⟨_, hstep', rfl⟩, ht.step ht' hstep, rfl, ?_⟩
      exact List.forall_mem_append.mpr ⟨hks, List.forall_mem_singleton.mpr (hQ order l' hpackets)⟩
  obtain ⟨ls', net, hrun', hs', rfl, hQ'⟩ :=
    simulated_of_step (R := fun t ks net => t.Sound ∧ net = t.network ∧ ∀ l ∈ ks, Q l)
      ⟨hs, rfl, fun l hl => (List.not_mem_nil hl).elim⟩ hstep
      ((along_legible hlegible hrun).and (along_of_forall hQ)) hrun
  exact ⟨hs', ls', hQ', hrun'⟩

/-! ## Connections that are not used -/

/-- The connection that a step is about. -/
def Label.connection : Label → Option Nat
  | .dial n .. | .greet n .. | .abandon n | .turn n .. | .receive n .. | .arrive n | .fill n .. =>
    some n
  | .broker (.act (.connection n) _) _ => some n
  | .broker .. => none

theorem connection_of_step (h : s.step l = some s') (hn : l.connection ≠ some n) :
    s'.connections n = s.connections n := by
  have hset : ∀ {m c}, some m ≠ some n → (s.setConnection m c).connections n = s.connections n :=
    fun hne => connections_setConnection_of_ne s _ fun heq => hne (congrArg some heq.symm)
  cases l with
  | arrive m =>
      obtain ⟨packet, toBroker, broker, -, -, rfl⟩ := State.arrive_cases h
      exact connections_setConnection_of_ne _ _ fun heq => hn (congrArg some heq.symm)
  | broker b order =>
      obtain ⟨-, broker, -, ⟨rfl, -⟩ | ⟨m, c, rfl, -, rfl⟩⟩ := State.brokerStep_cases h
      · rfl
      · exact connections_setConnection_of_ne _ _ fun heq => hn (congrArg some heq.symm)
  | _ =>
      obtain ⟨c, -, rfl⟩ := Option.map_eq_some_iff.mp h
      exact hset hn

theorem connection_of_run (hrun : run State.step s ls = some s') (hn : ∀ l ∈ ls, l.connection ≠ some n) :
    s'.connections n = s.connections n := by
  induction ls generalizing s with
  | nil =>
      cases hrun
      rfl
  | cons l ls ih =>
      obtain ⟨t, hstep, hrest⟩ := run_cons_eq_some.mp hrun
      obtain ⟨hl, hls⟩ := List.forall_mem_cons.mp hn
      rw [ih hrest hls, connection_of_step hstep hl]

/-- What was written on the connections `ns` is legible. -/
def State.legibleOn (s : State) (ns : List Nat) : Bool :=
  ns.all fun n => decide ((s.connections n).toBroker.Legible ∧ (s.connections n).toClient.Legible)

/-- Nothing was written on a connection that the run has not used. -/
theorem legible_of_legibleOn {config : Broker.Config} {maxPacketSize : Nat → Nat} {ns : List Nat}
    (hrun : run State.step (.start config maxPacketSize) ls = some s)
    (hls : ∀ l ∈ ls, ∀ n ∈ l.connection, n ∈ ns) (h : s.legibleOn ns = true) : s.Legible := by
  intro n
  by_cases hn : n ∈ ns
  · exact of_decide_eq_true (List.all_eq_true.mp h n hn)
  · rw [connection_of_run hrun fun l hl heq => hn (hls l hl n heq)]
    exact ⟨fun x hx => (List.not_mem_nil hx).elim, fun x hx => (List.not_mem_nil hx).elim⟩

end

end Sockets
end Vaux
