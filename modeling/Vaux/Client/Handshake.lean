import Vaux.Client.SendWindow
import Vaux.Client.Task

/-!
# The handshake of an outbound publish

What has happened to an identifier so far, as far as the session has accepted it, is a number
of complete handshakes and then as much of one as the entry of the identifier stands for.
-/

namespace Vaux
namespace Client

open Wire Mqtt Machine

/-- Something that happens to an identifier; what is sent has been handed to the stream. -/
inductive Milestone where
  | publishQos1
  | pubAck
  | publishQos2
  | pubRec
  | pubRel
  | pubComp
  deriving DecidableEq

namespace Milestone

def handshakes : List (List Milestone) :=
  [[.publishQos1, .pubAck], [.publishQos2, .pubRec, .pubRel, .pubComp]]

/-- Complete handshakes one after the other. -/
def Complete (events : List Milestone) : Prop :=
  ∃ rounds : List (List Milestone), (∀ round ∈ rounds, round ∈ handshakes) ∧ events = rounds.flatten

/-- The beginning of such a sequence. -/
def Regular (events : List Milestone) : Prop := ∃ whole, Complete whole ∧ events <+: whole

end Milestone

/-- What the session sends for the identifier. -/
def sentMilestone (packetId : UInt16) : Packet → Option Milestone
  | .publish p =>
    if p.packetId = some packetId then
      match p.qos with
      | .ok .atLeastOnce => some .publishQos1
      | .ok .exactlyOnce => some .publishQos2
      | _ => none
    else none
  | .pubRel p => if p.packetId = packetId then some .pubRel else none
  | _ => none

/-- The acknowledgement of a publish and the identifier that it is for. -/
def acknowledgement : Packet → Option (UInt16 × Milestone)
  | .pubAck p => some (p.packetId, .pubAck)
  | .pubRec p => some (p.packetId, .pubRec)
  | .pubComp p => some (p.packetId, .pubComp)
  | _ => none

/-- The call is rejected with a protocol error. -/
def Reply.rejected (reply : Reply (Option Packet)) : Bool :=
  match reply.result with
  | .err e => e.kind = .protocol .protocolErr
  | _ => false

/-- What a packet that comes in is for the identifier, if the session accepts it. -/
def receivedMilestone (packetId : UInt16) (packet : Packet) (reply : Reply (Option Packet)) :
    List Milestone :=
  match acknowledgement packet with
  | some (k, m) => if k = packetId ∧ reply.rejected = false then [m] else []
  | none => []

/-- A session and what has happened to each identifier. -/
structure Handshakes where
  session : ClientSession
  events : UInt16 → List Milestone

/-- What an entry of an earlier run stands for. -/
def progress : Option QoSPacketState → List Milestone
  | none => []
  | some p =>
    match p.next with
    | .pubAck => [.publishQos1]
    | .pubRec => [.publishQos2]
    | .pubRel | .pubComp => [.publishQos2, .pubRec, .pubRel]

namespace Handshakes

def start (state : SessionState) : Handshakes where
  session := .newFromClient state
  events := fun packetId => progress (state.pendingQosSend.lookup packetId)

/-- What a call does to the identifier. -/
def eventsOf (s : ClientSession) (call : Call) (packetId : UInt16) : List Milestone :=
  (match call with
    | .handle packet _ => receivedMilestone packetId packet (s.perform call)
    | .write .. => []) ++ (s.perform call).sent.filterMap (sentMilestone packetId)

/-- The loop drops the application's acknowledgements. -/
def drops (s : ClientSession) : Call → Bool
  | .write packet _ => qosControl packet && s.autoAck
  | .handle .. => false

def step (self : Handshakes) (call : Call) : Option Handshakes :=
  if drops self.session call then some self
  else
    (self.session.step call).map fun session =>
      { session, events := fun packetId => self.events packetId ++ eventsOf self.session call packetId }

/-- The handshakes are in order, an identifier is not used again before its handshake is
complete, and an acknowledgement out of order is rejected. -/
structure Orderly (h : Handshakes) : Prop where
  regular : ∀ packetId, Milestone.Regular (h.events packetId)
  fresh : ∀ packet ok packetId p, .publish p ∈ (h.session.writeNext ok packet).sent →
    (p.qos = .ok .atLeastOnce ∨ p.qos = .ok .exactlyOnce) → p.packetId = some packetId →
    Milestone.Complete (h.events packetId)
  rejects : ∀ packet ok packetId m, acknowledgement packet = some (packetId, m) →
    ¬ Milestone.Regular (h.events packetId ++ [m]) → (h.session.handlePacket ok packet).rejected = true

end Handshakes

namespace Milestone

section

variable {events more : List Milestone}

theorem complete_nil : Complete [] := ⟨[], fun _ h => (by cases h), rfl⟩

theorem Complete.append {round : List Milestone} (h : Complete events)
    (hround : round = [] ∨ round ∈ handshakes) : Complete (events ++ round) := by
  obtain ⟨rounds, hall, rfl⟩ := h
  rcases hround with rfl | hround
  · rw [List.append_nil]
    exact ⟨rounds, hall, rfl⟩
  · refine ⟨rounds ++ [round], fun r hr => ?_, by simp⟩
    rcases List.mem_append.mp hr with hr | hr
    · exact hall r hr
    · rw [List.mem_singleton.mp hr]
      exact hround

theorem Regular.of_prefix (h : Regular more) (hpre : events <+: more) : Regular events := by
  obtain ⟨whole, hwhole, hmore⟩ := h
  exact ⟨whole, hwhole, hpre.trans hmore⟩

/-- A handshake is begun by its first milestones. -/
theorem progress_prefix (p : Option QoSPacketState) :
    ∃ round, (round = [] ∨ round ∈ handshakes) ∧ progress p <+: round := by
  cases p with
  | none => exact ⟨[], .inl rfl, List.prefix_refl _⟩
  | some p =>
      cases hp : p.next with
      | pubAck => exact ⟨[.publishQos1, .pubAck], .inr (by decide), by simp [progress, hp]⟩
      | pubRec => exact ⟨[.publishQos2, .pubRec, .pubRel, .pubComp], .inr (by decide),
          by simp [progress, hp]⟩
      | pubRel | pubComp => exact ⟨[.publishQos2, .pubRec, .pubRel, .pubComp], .inr (by decide),
          by simp [progress, hp]⟩

theorem Complete.regular (h : Complete events) (p : Option QoSPacketState) :
    Regular (events ++ progress p) := by
  obtain ⟨round, hround, hpre⟩ := progress_prefix p
  exact ⟨events ++ round, h.append hround, (List.prefix_append_right_inj events).mpr hpre⟩

end

end Milestone

/-! ## What a call does to an identifier -/

/-- The milestones take the identifier from one entry to the other. -/
def Moves (before after : Option QoSPacketState) (milestones : List Milestone) : Prop :=
  ∃ round, (round = [] ∨ round ∈ Milestone.handshakes) ∧
    progress before ++ milestones = round ++ progress after

theorem Moves.refl (p : Option QoSPacketState) : Moves p p [] := ⟨[], .inl rfl, List.append_nil _⟩

namespace Handshakes

section

variable {s s' : ClientSession} {ok : Bool} {packet : Packet} {packetId : UInt16} {call : Call}

theorem moves_writeQos (ok : Bool) {entry : Packet → QoSPacketState} {p : Publish} {m : Milestone}
    (hentry : ∀ packet, progress (some (entry packet)) = [m])
    (hsent : ∀ k, sentMilestone packetId (.publish { p with packetId := some k }) =
      if k = packetId then some m else none) :
    Moves (s.pendingQosSend.lookup packetId)
      ((s.writeQos ok entry p).session.pendingQosSend.lookup packetId)
      ((s.writeQos ok entry p).sent.filterMap (sentMilestone packetId)) := by
  obtain ⟨e, h⟩ | ⟨k, last, hfree, h⟩ := ClientSession.writeQos_cases s ok entry p
  · rw [h]
    exact .refl _
  · rw [h]
    simp only [ClientSession.sendPacket, ClientSession.insertSend, List.filterMap_cons, hsent,
      List.filterMap_nil]
    by_cases hk : k = packetId
    · subst hk
      rw [if_pos rfl, AList.lookup_insert, AList.lookup_eq_none.mpr hfree]
      exact ⟨[], .inl rfl, (hentry _).symm⟩
    · rw [if_neg hk, AList.lookup_insert_ne (Ne.symm hk)]
      exact .refl _

theorem moves_writeNext (hdrop : qosControl packet = false) :
    Moves (s.pendingQosSend.lookup packetId)
      ((s.writeNext ok packet).session.pendingQosSend.lookup packetId)
      ((s.writeNext ok packet).sent.filterMap (sentMilestone packetId)) := by
  cases packet with
  | publish p =>
      simp only [ClientSession.writeNext]
      split
      · rename_i hq
        simp only [ClientSession.sendPacket, List.filterMap_cons, sentMilestone, hq, ite_self,
          List.filterMap_nil]
        exact .refl _
      · rename_i hq
        exact moves_writeQos ok (fun _ => rfl) fun k => by
          simp only [sentMilestone, Option.some.injEq]
          rw [show ({ p with packetId := some k } : Publish).qos = _ from hq]
      · rename_i hq
        exact moves_writeQos ok (fun _ => rfl) fun k => by
          simp only [sentMilestone, Option.some.injEq]
          rw [show ({ p with packetId := some k } : Publish).qos = _ from hq]
      · exact .refl _
  | pubRel p => cases hdrop
  | disconnect d => cases ok <;> exact .refl _
  | _ => exact .refl _

/-- The milestones of a packet that comes in. -/
def milestonesOf (packetId : UInt16) (packet : Packet) (reply : Reply (Option Packet)) :
    List Milestone :=
  receivedMilestone packetId packet reply ++ reply.sent.filterMap (sentMilestone packetId)

theorem moves_of_rejected {reply : Reply (Option Packet)} (hrejected : reply.rejected = true)
    (hsent : reply.sent = [])
    (hsame : reply.session.pendingQosSend.lookup packetId = s.pendingQosSend.lookup packetId) :
    Moves (s.pendingQosSend.lookup packetId) (reply.session.pendingQosSend.lookup packetId)
      (milestonesOf packetId packet reply) := by
  have hreceived : receivedMilestone packetId packet reply = [] := by
    unfold receivedMilestone
    split
    · rw [if_neg fun h => by rw [hrejected] at h; cases h.2]
    · rfl
  rw [milestonesOf, hreceived, hsent, hsame]
  exact .refl _

theorem receivedMilestone_eq {reply : Reply (Option Packet)} {k : UInt16} {m : Milestone}
    (hack : acknowledgement packet = some (k, m)) (haccepted : reply.rejected = false) :
    receivedMilestone packetId packet reply = if k = packetId then [m] else [] := by
  simp only [receivedMilestone, hack, haccepted, and_true]

/-- An acknowledgement that takes the entry away completes the handshake. -/
theorem moves_of_completed {reply : Reply (Option Packet)} {k : UInt16} {m : Milestone}
    {q : QoSPacketState} (hack : acknowledgement packet = some (k, m))
    (haccepted : reply.rejected = false) (hsent : reply.sent = [])
    (hpending : reply.session.pendingQosSend = s.pendingQosSend.erase k)
    (hlookup : s.pendingQosSend.lookup k = some q)
    (hround : progress (some q) ++ [m] ∈ Milestone.handshakes) :
    Moves (s.pendingQosSend.lookup packetId) (reply.session.pendingQosSend.lookup packetId)
      (milestonesOf packetId packet reply) := by
  rw [milestonesOf, receivedMilestone_eq hack haccepted, hsent, hpending, List.filterMap_nil,
    List.append_nil]
  by_cases hk : k = packetId
  · subst hk
    rw [if_pos rfl, AList.lookup_erase, hlookup]
    exact ⟨_, .inr hround, (List.append_nil _).symm⟩
  · rw [if_neg hk, AList.lookup_erase_ne (Ne.symm hk)]
    exact .refl _

/-- A PUBREC is accepted and the PUBREL handed to the stream, whether it is written or not. -/
theorem moves_of_released (ok : Bool) {p : PubResp} {q : QoSPacketState}
    (hlookup : s.pendingQosSend.lookup p.packetId = some q) (hq : q.next = .pubRec) :
    Moves (s.pendingQosSend.lookup packetId)
      ((ClientSession.passOn ((s.removeSend p.packetId).releaseQos2 ok p.packetId q)
        (.pubRec p)).session.pendingQosSend.lookup packetId)
      (milestonesOf packetId (.pubRec p)
        (ClientSession.passOn ((s.removeSend p.packetId).releaseQos2 ok p.packetId q) (.pubRec p))) := by
  rw [ClientSession.releaseQos2_eq hq, milestonesOf, receivedMilestone_eq rfl (by cases ok <;> rfl)]
  have hid : (PubResp.newWithPacketId .pubRel p.packetId).packetId = p.packetId := rfl
  by_cases hk : p.packetId = packetId
  · subst hk
    refine ⟨[], .inl rfl, ?_⟩
    rw [if_pos rfl, hlookup]
    cases ok <;>
      simp [ClientSession.passOn, ClientSession.insertSend, ClientSession.removeSend, sentMilestone,
        hid, progress, hq]
  · have hne : packetId ≠ p.packetId := Ne.symm hk
    rw [if_neg hk]
    cases ok <;>
      simp only [ClientSession.passOn, ClientSession.insertSend, ClientSession.removeSend,
        AList.lookup_insert_ne hne, AList.lookup_erase_ne hne, Bool.false_eq_true, if_false, if_true,
        List.filterMap_cons, sentMilestone, hid, hk, List.filterMap_nil, List.append_nil]
    all_goals exact .refl _

theorem moves_handlePacket (ok : Bool) (packet : Packet) (packetId : UInt16)
    (hauto : s.autoAck = true) :
    Moves (s.pendingQosSend.lookup packetId)
      ((s.handlePacket ok packet).session.pendingQosSend.lookup packetId)
      (milestonesOf packetId packet (s.handlePacket ok packet)) := by
  cases packet with
  | publish p =>
      have hsent : (s.handlePacket ok (.publish p)).sent.filterMap (sentMilestone packetId) = [] := by
        simp only [ClientSession.handlePacket, ClientSession.passOn, ClientSession.handleRecvPublish]
        split
        · rfl
        · split
          · rfl
          · split
            · simp only [ClientSession.recvQos1]
              split <;> rfl
            · rfl
        · rw [ClientSession.recvQos2_eq]
          simp only
          split <;> rfl
        · rfl
      have hsame : (s.handleRecvPublish ok p).session.pendingQosSend = s.pendingQosSend :=
        (ClientSession.sameSend_handleRecvPublish p).pending
      rw [milestonesOf, hsent]
      simp only [ClientSession.handlePacket, ClientSession.passOn, hsame]
      exact .refl _
  | pubRel p =>
      have hsent : (s.handlePacket ok (.pubRel p)).sent.filterMap (sentMilestone packetId) = [] := by
        simp only [ClientSession.handlePacket, ClientSession.passOn, ClientSession.handlePubRel]
        split
        · rfl
        · split
          · split <;> rfl
          · rfl
      have hsame : (s.handlePubRel ok p.packetId).session.pendingQosSend = s.pendingQosSend :=
        (ClientSession.sameSend_handlePubRel p.packetId).pending
      rw [milestonesOf, hsent]
      simp only [ClientSession.handlePacket, ClientSession.passOn, hsame]
      exact .refl _
  | pubAck p =>
      cases hlookup : s.pendingQosSend.lookup p.packetId with
      | none =>
          simp only [ClientSession.handlePacket, ClientSession.handlePubAck, hlookup]
          exact moves_of_rejected rfl rfl rfl
      | some q =>
          by_cases hq : q.next = .pubAck
          · simp only [ClientSession.handlePacket, ClientSession.handlePubAck, hlookup, if_pos hq]
            exact moves_of_completed rfl rfl rfl rfl hlookup (by simp [progress, hq, Milestone.handshakes])
          · simp only [ClientSession.handlePacket, ClientSession.handlePubAck, hlookup, if_neg hq]
            exact moves_of_rejected rfl rfl rfl
  | pubComp p =>
      cases hlookup : s.pendingQosSend.lookup p.packetId with
      | none =>
          simp only [ClientSession.handlePacket, ClientSession.handlePubComp, hlookup]
          exact moves_of_rejected rfl rfl rfl
      | some q =>
          by_cases hq : q.next = .pubComp
          · simp only [ClientSession.handlePacket, ClientSession.handlePubComp, hlookup, if_pos hq]
            exact moves_of_completed rfl rfl rfl rfl hlookup (by simp [progress, hq, Milestone.handshakes])
          · simp only [ClientSession.handlePacket, ClientSession.handlePubComp, hlookup, if_neg hq]
            exact moves_of_rejected rfl rfl (lookup_putBack hlookup)
  | pubRec p =>
      cases hlookup : s.pendingQosSend.lookup p.packetId with
      | none =>
          simp only [ClientSession.handlePacket, ClientSession.handlePubRec, hlookup]
          exact moves_of_rejected rfl rfl rfl
      | some q =>
          by_cases hq : q.next = .pubRec
          · simp only [ClientSession.handlePacket, ClientSession.handlePubRec, hlookup, if_pos hq]
            rw [if_pos hauto]
            exact moves_of_released ok hlookup hq
          · simp only [ClientSession.handlePacket, ClientSession.handlePubRec, hlookup, if_neg hq]
            exact moves_of_rejected rfl rfl (lookup_putBack hlookup)
  | _ => exact .refl _

/-! ## Every run -/

/-- The milestones so far are complete handshakes and what the entry stands for. -/
structure Inv (h : Handshakes) : Prop where
  autoAck : h.session.autoAck = true
  events : ∀ packetId, ∃ whole, Milestone.Complete whole ∧
    h.events packetId = whole ++ progress (h.session.pendingQosSend.lookup packetId)

variable {h h' : Handshakes}

theorem inv_start {state : SessionState} (hauto : state.autoAck = true) : (start state).Inv :=
  ⟨hauto, fun _ => ⟨[], Milestone.complete_nil, rfl⟩⟩

theorem moves_step (packetId : UInt16) (hauto : s.autoAck = true) (hdrop : drops s call = false)
    (hstep : s.step call = some s') :
    Moves (s.pendingQosSend.lookup packetId) (s'.pendingQosSend.lookup packetId)
      (eventsOf s call packetId) := by
  rw [← (ClientSession.step_eq_some.mp hstep).2]
  cases call with
  | write packet ok =>
      rw [drops, hauto, Bool.and_true] at hdrop
      exact moves_writeNext hdrop
  | handle packet ok => exact moves_handlePacket ok packet packetId hauto

theorem Inv.step (hinv : h.Inv) (hstep : h.step call = some h') : h'.Inv := by
  unfold Handshakes.step at hstep
  split at hstep
  · cases hstep
    exact hinv
  · rename_i hdrop
    obtain ⟨s', hcall, rfl⟩ := Option.map_eq_some_iff.mp hstep
    refine ⟨(ClientSession.autoAck_step hcall).trans hinv.autoAck, fun packetId => ?_⟩
    obtain ⟨whole, hwhole, hevents⟩ := hinv.events packetId
    obtain ⟨round, hround, hmoves⟩ :=
      moves_step packetId hinv.autoAck (Bool.eq_false_iff.mpr hdrop) hcall
    refine ⟨whole ++ round, hwhole.append hround, ?_⟩
    show h.events packetId ++ _ = _
    rw [hevents, List.append_assoc, hmoves, List.append_assoc]

theorem Inv.regular (hinv : h.Inv) (packetId : UInt16) : Milestone.Regular (h.events packetId) := by
  obtain ⟨whole, hwhole, hevents⟩ := hinv.events packetId
  rw [hevents]
  exact hwhole.regular _

theorem fresh_of_writeNext {p : Publish} (hsent : .publish p ∈ (s.writeNext ok packet).sent)
    (hqos : p.qos = .ok .atLeastOnce ∨ p.qos = .ok .exactlyOnce) (hid : p.packetId = some packetId) :
    packetId ∉ s.pendingQosSend := by
  have hwrite : ∀ entry p', .publish p ∈ (s.writeQos ok entry p').sent → packetId ∉ s.pendingQosSend := by
    intro entry p' hsent
    obtain ⟨e, h⟩ | ⟨k, last, hfree, h⟩ := ClientSession.writeQos_cases s ok entry p'
    · rw [h] at hsent
      cases hsent
    · rw [h] at hsent
      cases List.mem_singleton.mp hsent
      cases hid
      exact hfree
  cases packet with
  | publish p' =>
      simp only [ClientSession.writeNext] at hsent
      split at hsent
      · rename_i hq
        cases List.mem_singleton.mp hsent
        rcases hqos with hqos | hqos <;> cases hq.symm.trans hqos
      · exact hwrite _ _ hsent
      · exact hwrite _ _ hsent
      · cases hsent
  | disconnect d => cases ok <;> cases List.mem_singleton.mp hsent
  | _ => cases List.mem_singleton.mp hsent

theorem Inv.orderly (hinv : h.Inv) : h.Orderly := by
  refine ⟨hinv.regular, fun packet ok packetId p hsent hqos hid => ?_,
    fun packet ok packetId m hack hirregular => ?_⟩
  · obtain ⟨whole, hwhole, hevents⟩ := hinv.events packetId
    rw [hevents, AList.lookup_eq_none.mpr (fresh_of_writeNext hsent hqos hid)]
    rwa [progress, List.append_nil]
  · by_contra haccepted
    rw [Bool.not_eq_true] at haccepted
    obtain ⟨whole, hwhole, hevents⟩ := hinv.events packetId
    obtain ⟨round, hround, hmoves⟩ := moves_handlePacket ok packet packetId hinv.autoAck
    rw [milestonesOf, receivedMilestone_eq hack haccepted, if_pos rfl] at hmoves
    have hregular : Milestone.Regular (whole ++ round ++ progress
        ((h.session.handlePacket ok packet).session.pendingQosSend.lookup packetId)) :=
      (hwhole.append hround).regular _
    refine hirregular (hregular.of_prefix ?_)
    rw [List.append_assoc, ← hmoves, hevents]
    simp

/-- With `auto_ack` the milestones of every identifier are in the order of the handshakes. -/
theorem orderly_of_run {state : SessionState} {calls : List Call} (hauto : state.autoAck = true)
    (hrun : run step (start state) calls = some h) : h.Orderly :=
  (invariant (I := Inv) (fun _ _ _ hinv hstep => hinv.step hstep) (inv_start hauto) hrun).orderly

end

/-- A QoS 2 handshake with a repeated PUBREC that is rejected. -/
theorem orderly_of_pubRec : ∃ h, run step (start (.new ""))
    [.write (.publish (publishOf .exactlyOnce (some 7))) true,
      .handle (.pubRec (.newWithPacketId .pubRec 7)) false,
      .handle (.pubRec (.newWithPacketId .pubRec 7)) true] = some h ∧
    h.events 7 = [.publishQos2, .pubRec, .pubRel] ∧ h.Orderly := by
  have hfacts : (run step (start (.new ""))
      [.write (.publish (publishOf .exactlyOnce (some 7))) true,
        .handle (.pubRec (.newWithPacketId .pubRec 7)) false,
        .handle (.pubRec (.newWithPacketId .pubRec 7)) true]).map (·.events 7) =
      some [.publishQos2, .pubRec, .pubRel] := by
    decide +kernel
  obtain ⟨h, hrun, hevents⟩ := Option.map_eq_some_iff.mp hfacts
  exact ⟨h, hrun, hevents, orderly_of_run rfl hrun⟩

end Handshakes

end Client
end Vaux
