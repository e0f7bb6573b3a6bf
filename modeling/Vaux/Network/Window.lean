import Vaux.Client.SendWindow
import Vaux.Network.Deliveries

/-!
# The messages that a client has pending

The QoS 1 publishes that wait for their PUBACK are pending under identifiers of their own, so
that every PUBACK is expected.  A QoS 2 publish stays pending: the broker sends no PUBREC.
-/

namespace Vaux
namespace Network

open Wire Mqtt Machine

def publishId : Request → Option UInt16
  | .publish packetId => some packetId
  | _ => none

/-- The identifiers of the QoS 1 publishes whose PUBACK the client has not read. -/
def Link.waiting (link : Link) : List UInt16 :=
  (link.asked.drop link.answered.length).filterMap publishId

/-- The publishes wait under different identifiers, and each of them is pending. -/
structure Awaits (s : Client.ClientSession) (ids : List UInt16) : Prop where
  nodup : ids.Nodup
  pending : ∀ packetId ∈ ids, ∃ entry,
    s.pendingQosSend.lookup packetId = some entry ∧ entry.next = .pubAck

/-- What waits for something else than a PUBACK stays. -/
def Retains (s s' : Client.ClientSession) : Prop :=
  ∀ packetId entry, s.pendingQosSend.lookup packetId = some entry → entry.next ≠ .pubAck →
    s'.pendingQosSend.lookup packetId = some entry

section

variable {s s' : Client.ClientSession} {ok : Bool} {p : Packet} {ids : List UInt16}

/-! ## Calls -/

theorem Awaits.of_pending (h : Awaits s ids) (hsame : s'.pendingQosSend = s.pendingQosSend) :
    Awaits s' ids :=
  ⟨h.nodup, by rw [hsame]; exact h.pending⟩

theorem retains_of_pending (hsame : s'.pendingQosSend = s.pendingQosSend) : Retains s s' := by
  intro packetId entry hentry _
  rw [hsame]
  exact hentry

theorem Awaits.mem (h : Awaits s ids) {packetId : UInt16} (hid : packetId ∈ ids) :
    packetId ∈ s.pendingQosSend := by
  obtain ⟨entry, hentry, -⟩ := h.pending packetId hid
  exact mem_of_lookup hentry

theorem lookup_insertSend_of_ne {packetId packetId' : UInt16} (entry : Client.QoSPacketState)
    (h : packetId' ≠ packetId) :
    (s.insertSend packetId entry).pendingQosSend.lookup packetId' = s.pendingQosSend.lookup packetId' :=
  AList.lookup_insert_ne h

theorem Awaits.insertSend (h : Awaits s ids) {packetId : UInt16} (hfresh : packetId ∉ s.pendingQosSend)
    (entry : Client.QoSPacketState) : Awaits (s.insertSend packetId entry) ids := by
  refine ⟨h.nodup, fun packetId' hid => ?_⟩
  have hne : packetId' ≠ packetId := by
    rintro rfl
    exact hfresh (h.mem hid)
  rw [lookup_insertSend_of_ne entry hne]
  exact h.pending packetId' hid

theorem Awaits.add (h : Awaits s ids) {packetId : UInt16} (hfresh : packetId ∉ s.pendingQosSend)
    {entry : Client.QoSPacketState} (hentry : entry.next = .pubAck) :
    Awaits (s.insertSend packetId entry) (ids ++ [packetId]) := by
  have hold := h.insertSend hfresh entry
  refine ⟨List.nodup_append.mpr ⟨h.nodup, List.nodup_singleton _, ?_⟩, fun packetId' hid => ?_⟩
  · rintro a ha b hb rfl
    exact hfresh (List.mem_singleton.mp hb ▸ h.mem ha)
  · rcases List.mem_append.mp hid with hid | hid
    · exact hold.pending packetId' hid
    · rw [List.mem_singleton.mp hid]
      exact ⟨entry, AList.lookup_insert _, hentry⟩

theorem retains_insertSend {packetId : UInt16} (hfresh : packetId ∉ s.pendingQosSend)
    (entry : Client.QoSPacketState) : Retains s (s.insertSend packetId entry) := by
  intro packetId' entry' hentry' _
  have hne : packetId' ≠ packetId := by
    rintro rfl
    exact hfresh (mem_of_lookup hentry')
  rw [lookup_insertSend_of_ne entry hne]
  exact hentry'

/-- The requests that get to the stream. -/
def requests (ok : Bool) (sent : List Packet) : List Request :=
  if ok then sent.filterMap request else []

theorem publishId_request (p : Packet) : (request p).bind publishId = offer p := by
  cases p with
  | publish publish =>
      simp only [request]
      cases offer (.publish publish) <;> rfl
  | _ => rfl

theorem publishIds_requests (ok : Bool) (sent : List Packet) :
    (requests ok sent).filterMap publishId = if ok then sent.filterMap offer else [] := by
  unfold requests
  split
  · rw [List.filterMap_filterMap]
    exact congrArg (List.filterMap · sent) (funext publishId_request)
  · rfl

theorem Link.asked_write (link : Link) (ok : Bool) (sent : List Packet) :
    (link.write ok sent).asked = link.asked ++ requests ok sent := by
  unfold Link.write requests
  split
  · exact List.filterMap_append
  · exact (List.append_nil _).symm

theorem Link.answered_write (link : Link) (ok : Bool) (sent : List Packet) :
    (link.write ok sent).answered = link.answered := by
  unfold Link.write
  split <;> rfl

/-- A call that offers nothing and leaves what is pending. -/
theorem pending_of_same (h : Awaits s ids) {sent : List Packet}
    (hsame : s'.pendingQosSend = s.pendingQosSend) (hsent : ∀ x ∈ sent, offer x = none) :
    Awaits s' (ids ++ (requests ok sent).filterMap publishId) ∧ Retains s s' := by
  refine ⟨?_, retains_of_pending hsame⟩
  rw [publishIds_requests, List.filterMap_eq_nil_iff.mpr hsent, ite_self, List.append_nil]
  exact h.of_pending hsame

theorem pending_of_writeQos (h : Awaits s ids) {publish : Publish}
    (entry : Packet → Client.QoSPacketState)
    (hentry : publish.qos = .ok .atLeastOnce → ∀ x, (entry x).next = .pubAck) :
    Awaits (s.writeQos ok entry publish).session
        (ids ++ (requests ok (s.writeQos ok entry publish).sent).filterMap publishId) ∧
      Retains s (s.writeQos ok entry publish).session := by
  obtain ⟨e, heq⟩ | ⟨packetId, last, hfresh, heq⟩ :=
    Client.ClientSession.writeQos_cases s ok entry publish
  · rw [heq]
    exact pending_of_same h rfl fun x hx => (List.not_mem_nil hx).elim
  · rw [heq]
    have hnumbered : Awaits { s with lastPacketId := last } ids := h.of_pending rfl
    refine ⟨?_, retains_insertSend hfresh _⟩
    rw [publishIds_requests]
    by_cases hone : publish.qos = .ok .atLeastOnce
    · have hoffer : offer (.publish { publish with packetId := some packetId }) = some packetId :=
        if_pos hone
      cases ok with
      | true =>
          simp only [Client.ClientSession.sendPacket, if_true, List.filterMap_cons, hoffer,
            List.filterMap_nil]
          exact hnumbered.add hfresh (hentry hone _)
      | false =>
          simp only [Bool.false_eq_true, if_false, List.append_nil]
          exact hnumbered.insertSend hfresh _
    · have hoffer : offer (.publish { publish with packetId := some packetId }) = none :=
        if_neg hone
      simp only [Client.ClientSession.sendPacket, List.filterMap_cons, hoffer, List.filterMap_nil,
        ite_self, List.append_nil]
      exact hnumbered.insertSend hfresh _

theorem pending_of_write (h : Awaits s ids) :
    Awaits (s.writeNext ok p).session
        (ids ++ (requests ok (s.writeNext ok p).sent).filterMap publishId) ∧
      Retains s (s.writeNext ok p).session := by
  cases p with
  | publish publish =>
      rw [Client.ClientSession.writeNext]
      split
      · rename_i hzero
        refine pending_of_same h rfl (List.forall_mem_singleton.mpr (if_neg fun hone => ?_))
        cases hzero.symm.trans hone
      · exact pending_of_writeQos h _ fun _ _ => rfl
      · rename_i htwo
        exact pending_of_writeQos h _ fun hone => by cases htwo.symm.trans hone
      · exact pending_of_same h rfl fun x hx => (List.not_mem_nil hx).elim
  | disconnect d =>
      rw [Client.ClientSession.writeNext]
      split <;> exact pending_of_same h rfl (List.forall_mem_singleton.mpr rfl)
  | _ => exact pending_of_same h rfl (List.forall_mem_singleton.mpr rfl)

theorem requests_handlePacket (s : Client.ClientSession) (ok : Bool) (p : Packet) :
    requests ok (s.handlePacket ok p).sent = [] := by
  unfold requests
  split
  · refine List.filterMap_eq_nil_iff.mpr fun x hx => ?_
    obtain ⟨-, hcontrol⟩ := controls_handlePacket s ok p x hx
    cases x with
    | pubAck | pubRec | pubRel | pubComp => rfl
    | _ => cases hcontrol
  · rfl

/-- The PUBACK for the publish that waits first. -/
theorem pending_of_pubAck (ok : Bool) {a : PubResp} (h : Awaits s (a.packetId :: ids)) :
    Awaits (s.handlePacket ok (.pubAck a)).session ids ∧
      (s.handlePacket ok (.pubAck a)).result = .ok (some (.pubAck a)) ∧
      Retains s (s.handlePacket ok (.pubAck a)).session := by
  obtain ⟨entry, hentry, hnext⟩ := h.pending a.packetId (List.mem_cons_self ..)
  obtain ⟨hnot, hnodup⟩ := List.nodup_cons.mp h.nodup
  have hcall : s.handlePubAck a.packetId =
      { session := (s.removeSend a.packetId).incrementSend, sent := [], result := .ok () } := by
    simp only [Client.ClientSession.handlePubAck, hentry, if_pos hnext]
  have hkeeps : ∀ packetId ≠ a.packetId,
      (s.handlePacket ok (.pubAck a)).session.pendingQosSend.lookup packetId =
        s.pendingQosSend.lookup packetId := by
    intro packetId hne
    simp only [Client.ClientSession.handlePacket, Client.ClientSession.passOn, hcall]
    exact AList.lookup_erase_ne hne
  refine ⟨⟨hnodup, fun packetId hid => ?_⟩, ?_, fun packetId entry' hentry' hnext' => ?_⟩
  · have hne : packetId ≠ a.packetId := by
      rintro rfl
      exact hnot hid
    rw [hkeeps packetId hne]
    exact h.pending packetId (List.mem_cons_of_mem _ hid)
  · simp only [Client.ClientSession.handlePacket, Client.ClientSession.passOn, hcall]
    rfl
  · have hne : packetId ≠ a.packetId := by
      rintro rfl
      cases hentry.symm.trans hentry'
      exact hnext' hnext
    rw [hkeeps packetId hne]
    exact hentry'

/-- A packet of the broker that is no PUBACK leaves what is pending. -/
theorem pending_of_served {q : Packet} (hserved : ∀ a, q ≠ .pubAck a ∧ q ≠ .pubRec a ∧ q ≠ .pubComp a) :
    (s.handlePacket ok q).session.pendingQosSend = s.pendingQosSend := by
  cases q with
  | publish publish => exact (Client.ClientSession.sameSend_handleRecvPublish publish).pending
  | pubRel a => exact (Client.ClientSession.sameSend_handlePubRel a.packetId).pending
  | pubAck a => exact absurd rfl (hserved a).1
  | pubRec a => exact absurd rfl (hserved a).2.1
  | pubComp a => exact absurd rfl (hserved a).2.2
  | _ => rfl

end

/-! ## Steps -/

/-- The broker takes no part in the handshakes of QoS 2. -/
theorem served_of_carried {order : HashOrder} {p q : Packet} (htyped : p.Typed) (hserved : p.Served)
    (h : p.carried order = some q) : ∀ a, q ≠ .pubRec a ∧ q ≠ .pubComp a := by
  have htype := htyped.carried h
  intro a
  cases p with
  | pubRec | pubRel | pubComp => exact hserved.elim
  | _ => exact ⟨fun heq => (by subst heq; cases htype), fun heq => (by subst heq; cases htype)⟩

theorem waiting_of_asked {link : Link} {rest : List Request}
    (h : link.asked = link.answered ++ rest) : link.waiting = rest.filterMap publishId := by
  rw [Link.waiting, h, List.drop_left]

/-- A client that has not started has asked nothing; one that has awaits its PUBACKs. -/
structure State.Windowed (net : State) (n : Nat) : Prop where
  idle : (∀ task, (net.links n).program ≠ .started task) → (net.links n).asked = []
  started : ∀ task, (net.links n).program = .started task →
    Awaits task.session (net.links n).waiting

section

variable {net net' : State} {l : Label} {n : Nat}

theorem windowed_start (config : Broker.Config) (n : Nat) : (State.start config).Windowed n where
  idle _ := rfl
  started task h := by cases h

theorem State.Windowed.keep (h : net.Windowed n)
    (hprogram : (net'.links n).program = (net.links n).program)
    (hasked : (net'.links n).asked = (net.links n).asked)
    (hanswered : (net'.links n).answered = (net.links n).answered) : net'.Windowed n where
  idle hidle := hasked.trans (h.idle fun task heq => hidle task (hprogram.trans heq))
  started task htask := by
    rw [Link.waiting, hasked, hanswered]
    exact h.started task (hprogram.symm.trans htask)

theorem windowed_of_idle (program : Program) (hprogram : (net'.links n).program = program)
    (hidle : ∀ task, program ≠ .started task) (hasked : (net'.links n).asked = []) :
    net'.Windowed n where
  idle _ := hasked
  started task htask := absurd (hprogram.symm.trans htask) (hidle task)

theorem windowed_of_started (task : Client.Task) (hprogram : (net'.links n).program = .started task)
    (h : Awaits task.session (net'.links n).waiting) : net'.Windowed n where
  idle hidle := absurd hprogram (hidle task)
  started task' htask := by
    cases hprogram.symm.trans htask
    exact h

/-- What a turn that reads no packet does to the messages that are pending. -/
theorem pending_of_turn {task task' : Client.Task} {turn : Client.Turn} {ids : List UInt16}
    (h : Awaits task.session ids) (hreads : readsPacket turn = false)
    (hturn : task.step turn = some task') :
    Awaits task'.session (ids ++ (requests (turnOk turn) (task.sends turn)).filterMap publishId) ∧
      Retains task.session task'.session := by
  cases hcall : task.callOf turn with
  | none =>
      have hsame := Client.Task.session_of_step hturn hcall
      rw [Client.Task.sends_of_callOf_none hcall]
      exact pending_of_same h (congrArg (·.pendingQosSend) hsame)
        fun x hx => (List.not_mem_nil hx).elim
  | some call =>
      obtain ⟨hok, p, ok, rfl, -⟩ := callOf_turn hreads hcall
      obtain ⟨-, hsession⟩ :=
        Client.ClientSession.step_eq_some.mp (Client.Task.called_of_step hturn hcall).step
      rw [hok, Client.Task.sends_of_callOf hcall, ← hsession]
      exact pending_of_write h

/-- What the client has asked, with the answer that it reads in front. -/
theorem asked_of_read {order : HashOrder} {p q : Packet} {rest : List Packet} (hw : net.Wired)
    (hx : net.Exchanged n) (htoClient : (net.links n).toClient = p :: rest)
    (hcarried : p.carried order = some q) :
    ∃ tail, (net.links n).asked = (net.links n).answered ++ ((answer q).toList ++ tail) := by
  obtain ⟨lost, -, hasked⟩ := hx
  have hp := hw.toClient n p (htoClient ▸ List.mem_cons_self ..)
  rw [htoClient, filterMap_cons_toList, ← answer_of_carried hp.1.typed hcarried] at hasked
  exact ⟨rest.filterMap answer ++ (pledges (net.handler n).todo ++
    (lost ++ (net.links n).toBroker.filterMap request)), by simp [hasked, List.append_assoc]⟩

/-- What reading a packet does to the messages that are pending. -/
theorem pending_of_read {task task' : Client.Task} {order : HashOrder} {ok : Bool} {p q : Packet}
    {rest : List Packet} {tail : List Request} (hw : net.Wired)
    (htoClient : (net.links n).toClient = p :: rest) (hcarried : p.carried order = some q)
    (h : Awaits task.session (((answer q).toList ++ tail).filterMap publishId))
    (hturn : task.step (.read (.packet q) ok) = some task') :
    Awaits task'.session (tail.filterMap publishId) ∧ Retains task.session task'.session := by
  have hcalled : task.Called (.handle q ok) task' := Client.Task.called_of_step hturn rfl
  obtain ⟨-, hsession⟩ := Client.ClientSession.step_eq_some.mp hcalled.step
  rw [← hsession]
  by_cases hack : ∃ a, q = .pubAck a
  · obtain ⟨a, rfl⟩ := hack
    obtain ⟨hawaits, -, hretains⟩ := pending_of_pubAck ok h
    exact ⟨hawaits, hretains⟩
  · obtain ⟨hsendable, hserved⟩ := hw.toClient n p (htoClient ▸ List.mem_cons_self ..)
    have hothers := served_of_carried hsendable.typed hserved hcarried
    have hsame : (task.session.handlePacket ok q).session.pendingQosSend = task.session.pendingQosSend :=
      pending_of_served fun a => ⟨fun heq => hack ⟨a, heq⟩, hothers a⟩
    have hnone : (answer q).toList.filterMap publishId = [] := by
      cases q with
      | pubAck a => exact absurd ⟨a, rfl⟩ hack
      | _ => rfl
    rw [List.filterMap_append, hnone] at h
    exact ⟨h.of_pending hsame, retains_of_pending hsame⟩

theorem State.Windowed.step (h : net.Windowed n) (hw : net.Wired) (hx : net.Exchanged n)
    (hstep : net.step l = some net') : net'.Windowed n := by
  cases State.moved_of_step hstep n with
  | still hlink => exact h.keep (by rw [hlink]) (by rw [hlink]) (by rw [hlink])
  | dialed state _ _ _ _ ok connect _ _ habsent hlink =>
      have hnothing : (net.links n).asked = [] :=
        h.idle fun task htask => by cases habsent.symm.trans htask
      cases ok with
      | true =>
          refine windowed_of_idle (.connecting (.newFromClient state)) ?_ ?_ ?_
          · rw [hlink]
            rfl
          · exact fun task heq => by cases heq
          · rw [hlink, Link.asked_write]
            exact (List.append_nil _).trans hnothing
      | false =>
          refine windowed_of_idle .gone (by rw [hlink]; rfl) ?_ (by rw [hlink]; exact hnothing)
          exact fun task heq => by cases heq
  | greeted session _ senders consumers _ _ _ reply hprogram _ _ _ hlink =>
      have hnothing : (net'.links n).asked = [] := by
        rw [hlink]
        exact h.idle fun task htask => by cases hprogram.symm.trans htask
      have hwaiting : (net'.links n).waiting = [] := by
        rw [Link.waiting, hnothing, List.drop_nil]
        rfl
      cases hprogram' : (net'.links n).program with
      | started task =>
          refine windowed_of_started task hprogram' ?_
          rw [hwaiting]
          exact ⟨List.nodup_nil, fun k hk => (List.not_mem_nil hk).elim⟩
      | _ => exact windowed_of_idle _ hprogram' (fun task heq => by cases heq) hnothing
  | abandoned session hprogram hlink =>
      refine windowed_of_idle .gone (by rw [hlink]) (fun task heq => by cases heq) ?_
      rw [hlink]
      exact h.idle fun task htask => by cases hprogram.symm.trans htask
  | turned task task' turn _ hprogram hreads hturn hlink =>
      refine windowed_of_started task' (by rw [hlink, program_write]) ?_
      have hwaiting : (net'.links n).waiting = (net.links n).waiting ++
          (requests (turnOk turn) (task.sends turn)).filterMap publishId := by
        obtain ⟨lost, -, hasked⟩ := hx
        rw [List.append_assoc, List.append_assoc] at hasked
        rw [waiting_of_asked hasked, ← List.filterMap_append]
        refine waiting_of_asked ?_
        rw [hlink, Link.asked_write, Link.answered_write]
        show (net.links n).asked ++ _ = (net.links n).answered ++ _
        rw [hasked, List.append_assoc]
      rw [hwaiting]
      exact (pending_of_turn (h.started task hprogram) hreads hturn).1
  | received task task' order ok p q rest hprogram htoClient hcarried hturn hlink =>
      refine windowed_of_started task' (by rw [hlink, program_write]) ?_
      obtain ⟨tail, hasked⟩ := asked_of_read hw hx htoClient hcarried
      have hold := h.started task hprogram
      rw [waiting_of_asked hasked] at hold
      have hwaiting : (net'.links n).waiting = tail.filterMap publishId := by
        refine waiting_of_asked ?_
        have hnone : requests ok (task.sends (.read (.packet q) ok)) = [] :=
          requests_handlePacket task.session ok q
        rw [hlink, Link.asked_write, Link.answered_write, hnone, List.append_nil]
        show (net.links n).asked = ((net.links n).read ++ [q]).filterMap answer ++ tail
        rw [hasked, List.filterMap_append, filterMap_cons_toList, List.filterMap_nil, List.append_nil,
          List.append_assoc]
        rfl
      rw [hwaiting]
      exact (pending_of_read hw htoClient hcarried hold hturn).1
  | arrived _ _ _ _ _ _ _ _ hlink =>
      exact h.keep (by rw [hlink]; rfl) (by rw [hlink]; rfl) (by rw [hlink]; rfl)
  | event _ _ _ _ _ hlink => exact h.keep (by rw [hlink]) (by rw [hlink]) (by rw [hlink])
  | acted _ _ _ _ _ _ hlink =>
      exact h.keep (by rw [hlink]; rfl) (by rw [hlink]; rfl) (by rw [hlink]; rfl)

/-- What waits for something else than a PUBACK stays over a step. -/
theorem retains_of_step {task : Client.Task} (h : net.Windowed n) (hw : net.Wired)
    (hx : net.Exchanged n) (hstep : net.step l = some net')
    (hprogram : (net.links n).program = .started task) :
    ∃ task', (net'.links n).program = .started task' ∧ Retains task.session task'.session := by
  have hsame : (net'.links n).program = (net.links n).program →
      ∃ task', (net'.links n).program = .started task' ∧ Retains task.session task'.session :=
    fun heq => ⟨task, heq.trans hprogram, retains_of_pending rfl⟩
  cases State.moved_of_step hstep n with
  | still hlink => exact hsame (by rw [hlink])
  | dialed _ _ _ _ _ _ _ _ _ habsent => cases habsent.symm.trans hprogram
  | greeted _ _ _ _ _ _ _ _ hprogram' => cases hprogram'.symm.trans hprogram
  | abandoned _ hprogram' => cases hprogram'.symm.trans hprogram
  | turned task₀ task' turn _ hprogram' hreads hturn hlink =>
      cases hprogram'.symm.trans hprogram
      exact ⟨task', by rw [hlink, program_write],
        (pending_of_turn (h.started task hprogram) hreads hturn).2⟩
  | received task₀ task' order ok p q rest hprogram' htoClient hcarried hturn hlink =>
      cases hprogram'.symm.trans hprogram
      obtain ⟨tail, hasked⟩ := asked_of_read hw hx htoClient hcarried
      have hold := h.started task hprogram
      rw [waiting_of_asked hasked] at hold
      exact ⟨task', by rw [hlink, program_write],
        (pending_of_read hw htoClient hcarried hold hturn).2⟩
  | arrived _ _ _ _ _ _ _ _ hlink => exact hsame (by rw [hlink]; rfl)
  | event _ _ _ _ _ hlink => exact hsame (by rw [hlink])
  | acted _ _ _ _ _ _ hlink => exact hsame (by rw [hlink]; rfl)

end

/-! ## Runs -/

/-- All that is known of a reachable state. -/
structure State.Ordered (net : State) : Prop where
  wired : net.Wired
  greets : ∀ n, net.Greets n
  exchanged : ∀ n, net.Exchanged n
  windowed : ∀ n, net.Windowed n

section

variable {config : Broker.Config} {ls ls' : List Label} {net net' : State} {l : Label} {n : Nat}
  {task : Client.Task}

theorem State.Ordered.step (h : net.Ordered) (hl : l.Typed) (hstep : net.step l = some net') :
    net'.Ordered where
  wired := h.wired.step hl hstep
  greets n := (h.greets n).step h.wired hstep
  exchanged n := (h.exchanged n).step h.wired (h.greets n) hstep
  windowed n := (h.windowed n).step h.wired (h.exchanged n) hstep

theorem ordered_of_run (hls : ∀ l ∈ ls, l.Typed)
    (hrun : run State.step (.start config) ls = some net) : net.Ordered :=
  invariant_of_step (P := fun _ l => l.Typed) (fun _ _ _ h hl hstep => h.step hl hstep)
    ⟨wired_start config, greets_start config, exchanged_start config, windowed_start config⟩
    (along_of_forall hls) hrun

/-- In every run the QoS 1 publishes that wait for their PUBACK are pending under different
identifiers, and the next PUBACK is one that the client expects. -/
theorem expected_of_run (hls : ∀ l ∈ ls, l.Typed)
    (hrun : run State.step (.start config) ls = some net)
    (hprogram : (net.links n).program = .started task) :
    Awaits task.session (net.links n).waiting ∧
      ∀ p rest order a ok, (net.links n).toClient = p :: rest → p.carried order = some (.pubAck a) →
        (task.session.handlePacket ok (.pubAck a)).result = .ok (some (.pubAck a)) := by
  have h := ordered_of_run hls hrun
  have hawaits := (h.windowed n).started task hprogram
  refine ⟨hawaits, fun p rest order a ok htoClient hcarried => ?_⟩
  obtain ⟨tail, hasked⟩ := asked_of_read h.wired (h.exchanged n) htoClient hcarried
  rw [waiting_of_asked hasked] at hawaits
  exact (pending_of_pubAck ok hawaits).2.1

/-- In every run a publish that waits for a PUBREC, or a PUBREL that waits for its PUBCOMP,
waits for good. -/
theorem retained_of_run (hls : ∀ l ∈ ls, l.Typed) (hls' : ∀ l ∈ ls', l.Typed)
    (hrun : run State.step (.start config) ls = some net) (hrun' : run State.step net ls' = some net')
    (hprogram : (net.links n).program = .started task) {packetId : UInt16}
    {entry : Client.QoSPacketState}
    (hentry : task.session.pendingQosSend.lookup packetId = some entry)
    (hnext : entry.next ≠ .pubAck) :
    ∃ task', (net'.links n).program = .started task' ∧
      task'.session.pendingQosSend.lookup packetId = some entry := by
  refine (invariant_of_step (P := fun _ l => l.Typed)
    (I := fun net => net.Ordered ∧ ∃ task', (net.links n).program = .started task' ∧
      task'.session.pendingQosSend.lookup packetId = some entry)
    ?_ ⟨ordered_of_run hls hrun, task, hprogram, hentry⟩ (along_of_forall hls') hrun').2
  rintro net l net' ⟨h, task, hprogram, hentry⟩ hl hstep
  obtain ⟨task', hprogram', hretains⟩ :=
    retains_of_step (h.windowed n) h.wired (h.exchanged n) hstep hprogram
  exact ⟨h.step hl hstep, task', hprogram', hretains packetId entry hentry hnext⟩

end

end Network
end Vaux
