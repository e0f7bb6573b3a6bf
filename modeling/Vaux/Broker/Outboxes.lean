import Vaux.Broker.Deliveries
import Vaux.Broker.Origins
import Vaux.Machine.Simulation

/-!
# The sessions of the broker as outboxes

What the broker does to the unacknowledged messages of a session, seen from that session
alone: each step of the broker is a step of the outbox, or it leaves the outbox as it is.  A
redelivery loop is the part of a handler's actions that tracks messages of the session again.
-/

namespace Vaux
namespace Broker

open Wire Mqtt Machine

/-! ## Sessions -/

/-- The part of a session that an outbox is about. -/
structure Session.Agrees (s s' : Session) : Prop where
  pending : s'.pendingAck = s.pendingAck
  next : s'.nextPacketIdField = s.nextPacketIdField

namespace Session.Agrees

variable {s s' s'' : Session}

theorem refl (s : Session) : s.Agrees s := ⟨rfl, rfl⟩

theorem trans (h : s.Agrees s') (h' : s'.Agrees s'') : s.Agrees s'' :=
  ⟨h'.pending.trans h.pending, h'.next.trans h.next⟩

theorem packetId (h : s.Agrees s') : s'.nextPacketId.1 = s.nextPacketId.1 := h.next

theorem nextPacketId (h : s.Agrees s') : s.nextPacketId.2.Agrees s'.nextPacketId.2 := by
  refine ⟨h.pending, ?_⟩
  show (if s'.nextPacketIdField + 1 = 0 then 1 else s'.nextPacketIdField + 1) =
    if s.nextPacketIdField + 1 = 0 then 1 else s.nextPacketIdField + 1
  rw [h.next]

theorem trackQosPublish (h : s.Agrees s') (packetId : UInt16) (publish : Publish) :
    (s.trackQosPublish packetId publish).Agrees (s'.trackQosPublish packetId publish) := by
  refine ⟨?_, h.next⟩
  show s'.pendingAck.insert packetId publish = s.pendingAck.insert packetId publish
  rw [h.pending]

theorem acknowledge (h : s.Agrees s') (packetId : UInt16) :
    (s.acknowledge packetId).2.Agrees (s'.acknowledge packetId).2 := by
  refine ⟨?_, h.next⟩
  show s'.pendingAck.erase packetId = s.pendingAck.erase packetId
  rw [h.pending]

theorem drainPending (h : s.Agrees s') : s.drainPending.Agrees s'.drainPending := ⟨rfl, h.next⟩

theorem pending_eq (h : s.Agrees s') : Session.pending s' = Session.pending s := by
  unfold Session.pending
  rw [h.pending]

end Session.Agrees

/-! ## Actions -/

/-- The identifier of the message of the session that the action tracks again. -/
def Action.tracked (ref : Ref) : Action → Option UInt16
  | .track ref' packetId _ => if ref' = ref then some packetId else none
  | _ => none

/-- The packet identifier that the session gives out for the action. -/
def Shared.assigns (sh : Shared) (ref : Ref) : Action → List UInt16
  | .deliver publish sender sub =>
    match sh.handsOver publish sender sub with
    | some (ref', out, _) =>
      if ref' = ref ∧ out.qos ≠ .ok .atMostOnce then [(sh.sessions ref).nextPacketId.1] else []
    | none => []
  | _ => []

/-- What an action does to the outbox of the session `ref`. -/
inductive Shared.Touches (sh : Shared) (c : Choice) (ref : Ref) (sh' : Shared) :
    Action → Next → Prop where
  | leaves (a : Action) (next : Next) (hsame : (sh.sessions ref).Agrees (sh'.sessions ref))
    (htracks : ∀ x ∈ next.more, x.tracked ref = none) (hnone : sh.assigns ref a = []) :
    Touches sh c ref sh' a next
  | routes (publish : Publish) (sender : String) (sub : Subscriber) (clone : Publish)
    (hactive : sh.pool.getActive sub.sessionId = some ref)
    (hone : sh.assigns ref (.deliver publish sender sub) = [(sh.sessions ref).nextPacketId.1])
    (hsame : ((sh.sessions ref).nextPacketId.2.trackQosPublish (sh.sessions ref).nextPacketId.1
      (withPacketId clone (sh.sessions ref).nextPacketId.1)).Agrees (sh'.sessions ref)) :
    Touches sh c ref sh' (.deliver publish sender sub) (.go [])
  | acknowledges (packetId : UInt16)
    (hsame : ((sh.sessions ref).acknowledge packetId).2.Agrees (sh'.sessions ref)) :
    Touches sh c ref sh' (.acknowledge ref packetId) (.go [])
  | opens (keepAlive : Nat) (control : Option ChannelId)
    (horder : c.order.Perm (Session.pending (sh.sessions ref)))
    (hsame : (sh.sessions ref).drainPending.Agrees (sh'.sessions ref)) :
    Touches sh c ref sh' (.openSession ref)
      (.opened keepAlive control (redelivery ref c.order ++ [.acceptSession ref]))
  | tracks (packetId : UInt16) (publish : Publish)
    (hsame : ((sh.sessions ref).trackQosPublish packetId publish).Agrees (sh'.sessions ref)) :
    Touches sh c ref sh' (.track ref packetId publish) (.go [])

section

variable {sh sh' : Shared} {t : TaskId} {c : Choice} {a : Action} {next : Next} {ref : Ref}

theorem tracks_redelivery {ref' : Ref} (hne : ref' ≠ ref) (order : List (UInt16 × Publish)) :
    ∀ x ∈ Shared.redelivery ref' order, x.tracked ref = none := by
  intro x hx
  obtain ⟨⟨packetId, publish⟩, -, hx⟩ := List.mem_flatMap.mp hx
  rcases List.mem_cons.mp hx with rfl | hx
  · exact if_neg hne
  · rw [List.mem_singleton.mp hx]
    rfl

theorem handOver_cases {publish out : Publish} {subQos : QoSLevel} {target target' : Session}
    (h : handOver publish subQos target = .ok (out, target')) :
    out.qos = .ok .atMostOnce ∧ target' = target ∨
      out.qos ≠ .ok .atMostOnce ∧ ∃ clone, target' =
        target.nextPacketId.2.trackQosPublish target.nextPacketId.1
          (withPacketId clone target.nextPacketId.1) := by
  obtain ⟨q, -, hover⟩ := Outcome.bind_eq_ok.mp h
  have hqos : (publish.setQos (grantedQos q subQos)).qos = .ok (grantedQos q subQos) :=
    qos_setQos _ _
  simp only at hover
  split at hover
  · rename_i habove
    cases hover
    refine .inr ⟨fun hzero => habove ?_, _, rfl⟩
    rw [withPacketId_eq hqos habove] at hzero
    exact Outcome.ok.inj (hqos.symm.trans hzero)
  · rename_i hzero
    cases hover
    exact .inl ⟨by rw [hqos, not_not.mp hzero], rfl⟩

theorem agrees_update {sessions : Ref → Session} {ref' : Ref} {session : Session}
    (h : (sessions ref').Agrees session) :
    (sessions ref).Agrees (Function.update sessions ref' session ref) := by
  by_cases heq : ref = ref'
  · subst heq
    simpa only [Function.update_self] using h
  · simpa only [Function.update_of_ne heq] using Session.Agrees.refl _

theorem agrees_setSession {ref' : Ref} {session : Session}
    (h : (sh.sessions ref').Agrees session) :
    (sh.sessions ref).Agrees ((sh.setSession ref' session).sessions ref) :=
  agrees_update h

theorem agrees_of_ne {ref' : Ref} (hne : ref' ≠ ref) (session : Session) :
    (sh.sessions ref).Agrees ((sh.setSession ref' session).sessions ref) := by
  simpa only [Shared.setSession, Function.update_of_ne (Ne.symm hne)] using Session.Agrees.refl _

theorem sessions_setSession (sh : Shared) (ref : Ref) (session : Session) :
    (sh.setSession ref session).sessions ref = session :=
  Function.update_self ..

theorem touches_of_deliver {publish : Publish} {sender : String} {sub : Subscriber}
    (h : sh.deliver publish sender sub = some sh') :
    sh.Touches c ref sh' (.deliver publish sender sub) (.go []) := by
  have hnothing : ∀ x ∈ (Next.go []).more, x.tracked ref = none := fun x hx => by cases hx
  rcases Shared.deliver_cases h with ⟨hnone, rfl⟩ | ⟨ref', out, target, hhands, hactive, hover, heq⟩
  · exact .leaves _ _ (Session.Agrees.refl _) hnothing (by simp only [Shared.assigns, hnone])
  · have hsessions : sh'.sessions = (sh.setSession ref' target).sessions := by
      rw [heq]
      split <;> rfl
    by_cases href : ref' = ref
    · subst href
      rcases handOver_cases hover with ⟨hzero, rfl⟩ | ⟨habove, clone, hclone⟩
      · refine .leaves _ _ ?_ hnothing ?_
        · rw [hsessions]
          exact agrees_setSession (Session.Agrees.refl _)
        · simp only [Shared.assigns, hhands]
          exact if_neg fun hboth => hboth.2 hzero
      · refine .routes publish sender sub clone hactive ?_ ?_
        · rw [Shared.assigns, hhands]
          exact if_pos ⟨rfl, habove⟩
        · rw [hsessions, sessions_setSession, hclone]
          exact Session.Agrees.refl _
    · refine .leaves _ _ ?_ hnothing ?_
      · rw [hsessions]
        exact agrees_of_ne href target
      · simp only [Shared.assigns, hhands]
        exact if_neg fun hboth => href hboth.1

/-- `hfresh`: a session that does not exist yet has given out nothing. -/
theorem touches_of_performed (hp : Shared.Performed sh t c a sh' next)
    (hfresh : sh.nextRef ≤ ref → Session.Agrees (.new "" none 0 0) (sh.sessions ref)) :
    sh.Touches c ref sh' a next := by
  have hnothing : ∀ x ∈ (Next.go []).more, x.tracked ref = none := fun x hx => by cases hx
  have hset : ∀ {ref' : Ref} {session : Session} (a : Action) (more : List Action),
      (sh.sessions ref').Agrees session → (∀ x ∈ more, x.tracked ref = none) →
      sh.assigns ref a = [] → sh.Touches c ref (sh.setSession ref' session) a (.go more) :=
    fun a more hsame hmore hnone => .leaves a (.go more) (agrees_setSession hsame) hmore hnone
  cases hp with
  | deliver publish sender sub _ hdeliver => exact touches_of_deliver hdeliver
  | enter x =>
      obtain ⟨b, hb⟩ := sessions_choose sh x ref
      refine .leaves _ _ ?_ ?_ rfl
      · show (sh.sessions ref).Agrees ((sh.choose x).1.sessions ref)
        rw [hb]
        exact ⟨rfl, rfl⟩
      · refine List.forall_mem_singleton.mpr ?_
        rcases Shared.choose_next sh x with ⟨ref', target, heq⟩ | ⟨target, heq⟩
        · rw [heq]
          rfl
        · rw [heq]
          rfl
  | register x =>
      refine .leaves _ _ ?_ (by simp [Next.more, Action.tracked]) rfl
      by_cases heq : ref = sh.nextRef
      · have hold := hfresh heq.ge
        show (sh.sessions ref).Agrees ((sh.register x).sessions ref)
        rw [Shared.sessions_register, heq, Function.update_self]
        rw [heq] at hold
        exact ⟨hold.pending.symm, hold.next.symm⟩
      · show (sh.sessions ref).Agrees ((sh.register x).sessions ref)
        rw [Shared.sessions_register, Function.update_of_ne heq]
        exact Session.Agrees.refl _
  | adopt x ref' =>
      obtain ⟨ch, hadopt⟩ := Shared.sessions_adopt sh x ref'
      refine .leaves _ _ ?_ (by simp [Next.more, Action.tracked]) rfl
      show (sh.sessions ref).Agrees ((sh.adopt x ref').sessions ref)
      rw [hadopt]
      exact agrees_update ⟨rfl, rfl⟩
  | grantExpiry ref' expiry => exact hset _ [] ⟨rfl, rfl⟩ hnothing rfl
  | openSession ref' hwritable horder =>
      by_cases heq : ref' = ref
      · subst heq
        refine .opens _ _ horder ?_
        rw [sessions_setSession]
        exact ⟨rfl, rfl⟩
      · refine .leaves _ _ (agrees_of_ne heq _) (fun x hx => ?_) rfl
        rcases List.mem_append.mp hx with hx | hx
        · exact tracks_redelivery heq c.order x hx
        · rw [List.mem_singleton.mp hx]
          rfl
  | track ref' packetId publish =>
      by_cases heq : ref' = ref
      · subst heq
        refine .tracks packetId publish ?_
        rw [sessions_setSession]
        exact Session.Agrees.refl _
      · exact .leaves _ _ (agrees_of_ne heq _) hnothing rfl
  | noWill ref' => exact hset _ [] ⟨rfl, rfl⟩ hnothing rfl
  | publishWill ref' will =>
      exact hset _ _ ⟨rfl, rfl⟩ (List.forall_mem_singleton.mpr rfl) rfl
  | delayWill ref' will =>
      refine .leaves _ _ ?_ (List.forall_mem_singleton.mpr rfl) rfl
      show (sh.sessions ref).Agrees
        (Function.update sh.sessions ref' (sh.sessions ref').takeWill.2 ref)
      exact agrees_update ⟨rfl, rfl⟩
  | setPendingWill ref' token =>
      have hcancel : (sh.cancel (sh.sessions ref').pendingWill).sessions = sh.sessions :=
        Shared.sessions_cancel _
      refine .leaves _ _ ?_ hnothing rfl
      show (sh.sessions ref).Agrees (Function.update
        (sh.cancel (sh.sessions ref').pendingWill).sessions ref' _ ref)
      rw [hcancel]
      exact agrees_update ⟨rfl, rfl⟩
  | clearWill ref' => exact hset _ [] ⟨rfl, rfl⟩ hnothing rfl
  | acknowledge ref' packetId =>
      by_cases heq : ref' = ref
      · subst heq
        refine .acknowledges packetId ?_
        rw [sessions_setSession]
        exact Session.Agrees.refl _
      · exact .leaves _ _ (agrees_of_ne heq _) hnothing rfl
  | deactivate sessionId =>
      refine .leaves _ _ ?_ hnothing rfl
      obtain ⟨b, hb⟩ := sessions_deactivate sh.pool sh.sessions sessionId ref
      show (sh.sessions ref).Agrees ((sh.pool.deactivate sh.sessions sessionId).2 ref)
      rw [hb]
      exact ⟨rfl, rfl⟩
  | route publish sender subscribers =>
      refine .leaves _ _ (Session.Agrees.refl _) ?_ rfl
      intro x hx
      simp only [Next.more, List.cons_append, List.mem_cons, List.mem_append, List.mem_map,
        List.not_mem_nil, or_false] at hx
      rcases hx with rfl | ⟨sub, -, rfl⟩ | rfl <;> rfl
  | _ => exact .leaves _ _ (Session.Agrees.refl _) (by simp [Next.more, Action.tracked]) rfl

end

/-! ## Outboxes -/

/-- The outbox goes on from `o` to `o'` and gives out `k` identifiers. -/
structure Outbox.Continues (o o' : Outbox) (k : Nat) : Prop where
  run : ∃ ds, run Outbox.step o ds = some o'
  assigned : o'.assigned = o.assigned + k
  inv : o.Inv → o'.assigned ≤ 65535 → o'.Inv

namespace Outbox.Continues

variable {o o' o'' : Outbox} {d : Delivery} {k k' : Nat}

theorem refl (o : Outbox) : o.Continues o 0 := ⟨⟨[], rfl⟩, rfl, fun h _ => h⟩

theorem trans (h : o.Continues o' k) (h' : o'.Continues o'' k') : o.Continues o'' (k + k') := by
  obtain ⟨ds, hds⟩ := h.run
  obtain ⟨ds', hds'⟩ := h'.run
  have hassigned := h.assigned
  have hassigned' := h'.assigned
  refine ⟨⟨ds ++ ds', run_append_eq_some.mpr ⟨o', hds, hds'⟩⟩, by omega, fun hinv hle => ?_⟩
  exact h'.inv (h.inv hinv (by omega)) hle

theorem of_step (h : o.step d = some o') (hassigned : o'.assigned = o.assigned + k)
    (hroute : ∀ publish, d = .route publish → 0 < k) : o.Continues o' k := by
  refine ⟨⟨[d], run_cons_eq_some.mpr ⟨o', h, rfl⟩⟩, hassigned, fun hinv hle => ?_⟩
  refine hinv.step (fun publish hd => Outbox.recent_of_few ?_) h
  have := hroute publish hd
  omega

theorem route (o : Outbox) (publish : Publish) : o.Continues
    { o with
      session := o.session.nextPacketId.2.trackQosPublish o.session.nextPacketId.1
        (withPacketId publish o.session.nextPacketId.1)
      assigned := o.assigned + 1
      serial := Function.update o.serial o.session.nextPacketId.1 o.assigned } 1 :=
  of_step (d := .route publish) rfl rfl fun _ _ => Nat.zero_lt_one

theorem acknowledge (o : Outbox) (packetId : UInt16) :
    o.Continues { o with session := (o.session.acknowledge packetId).2 } 0 :=
  of_step (d := .acknowledge packetId) rfl rfl fun _ heq => by cases heq

theorem reconnect {n : Nat} {order : List (UInt16 × Publish)}
    (horder : order.Perm (Session.pending o.session)) (hidle : o.hands n = .idle) :
    o.Continues
      (({ o with session := o.session.drainPending } : Outbox).setHand n
        { rest := order, writing := false }) 0 :=
  of_step (d := .reconnect n order) (if_pos ⟨horder, hidle⟩) rfl fun _ heq => by cases heq

theorem redeliver {n : Nat} {packetId : UInt16} {publish : Publish}
    {rest : List (UInt16 × Publish)}
    (hhand : o.hands n = { rest := (packetId, publish) :: rest, writing := false }) :
    o.Continues
      (({ o with session := o.session.trackQosPublish packetId (redelivered packetId publish) } :
        Outbox).setHand n { rest, writing := true }) 0 :=
  of_step (d := .redeliver n) (by simp only [Outbox.step, hhand]) rfl fun _ heq => by cases heq

theorem written {n : Nat} {rest : List (UInt16 × Publish)} (ok : Bool)
    (hhand : o.hands n = { rest, writing := true }) :
    o.Continues (o.setHand n { rest := if ok then rest else [], writing := false }) 0 := by
  refine of_step (d := .written n ok) ?_ rfl fun _ heq => by cases heq
  simp only [Outbox.step, hhand, if_true]

end Outbox.Continues

/-- A redelivery loop and what its handler has left to do. -/
inductive Hand.Drives (ref : Ref) : Hand → List Action → Prop where
  | next (rest : List (UInt16 × Publish)) (tail : List Action)
    (htail : ∀ x ∈ tail, x.tracked ref = none) :
    Drives ref { rest, writing := false } (Shared.redelivery ref rest ++ tail)
  | write (packet : Packet) (rest : List (UInt16 × Publish)) (tail : List Action)
    (htail : ∀ x ∈ tail, x.tracked ref = none) :
    Drives ref { rest, writing := true } (.write packet :: (Shared.redelivery ref rest ++ tail))

namespace Hand

variable {ref : Ref} {hand : Hand} {a : Action} {rest todo : List Action}

theorem drives_idle (h : ∀ x ∈ todo, x.tracked ref = none) : Hand.idle.Drives ref todo :=
  .next [] todo h

theorem Drives.eq_idle (h : hand.Drives ref todo) (hnil : todo = []) : hand = .idle := by
  cases h with
  | next more tail =>
      cases more with
      | nil => rfl
      | cons x more => cases hnil
  | write => cases hnil

/-- A handler outside the loop, at the track or at the write of a redelivery. -/
theorem Drives.cases (h : hand.Drives ref (a :: rest)) :
    (hand = .idle ∧ ∀ x ∈ a :: rest, x.tracked ref = none) ∨
    (∃ packetId publish more tail, hand = { rest := (packetId, publish) :: more, writing := false } ∧
      a = .track ref packetId (redelivered packetId publish) ∧
      rest = .write (.publish (redelivered packetId publish)) ::
        (Shared.redelivery ref more ++ tail) ∧ ∀ x ∈ tail, x.tracked ref = none) ∨
    ∃ packet more tail, hand = { rest := more, writing := true } ∧ a = .write packet ∧
      rest = Shared.redelivery ref more ++ tail ∧ ∀ x ∈ tail, x.tracked ref = none := by
  generalize htodo : a :: rest = todo at h
  cases h with
  | next more tail htail =>
      cases more with
      | nil => exact .inl ⟨rfl, (show a :: rest = tail from htodo) ▸ htail⟩
      | cons x more =>
          obtain ⟨packetId, publish⟩ := x
          cases htodo
          exact .inr (.inl ⟨packetId, publish, more, tail, rfl, rfl, rfl, htail⟩)
  | write packet more tail htail =>
      cases htodo
      exact .inr (.inr ⟨packet, more, tail, rfl, rfl, rfl, htail⟩)

end Hand

/-- The broker and an outbox of the session `ref`. -/
structure State.Follows (s : State) (ref : Ref) (o : Outbox) : Prop where
  session : o.session.Agrees (s.shared.sessions ref)
  hands : ∀ n, (o.hands n).Drives ref (s.tasks (.connection n)).todo
  /-- A session that does not exist yet has given out nothing. -/
  fresh : s.shared.nextRef ≤ ref → Session.Agrees (.new "" none 0 0) (s.shared.sessions ref)

/-- The outbox of a session before the first connection. -/
def Outbox.empty : Outbox := .start (.new "" none 0 0)

section

variable {s s' : State} {t : TaskId} {c : Choice} {a : Action} {rest : List Action} {sh : Shared}
  {next : Next} {ref : Ref} {o o' : Outbox}

theorem follows_start (config : Config) (ref : Ref) : (State.start config).Follows ref .empty where
  session := Session.Agrees.refl _
  hands _ := Hand.drives_idle fun x hx => by cases hx
  fresh _ := Session.Agrees.refl _

/-- The hands are those of the outbox but for the one of the handler that acts. -/
theorem State.Follows.of_acted (h : s.Follows ref o) (hacted : Acted s t c s' a rest sh next)
    (hsession : o'.session.Agrees (sh.sessions ref))
    (hfresh : ref < s.shared.nextRef ∨ (s.shared.sessions ref).Agrees (sh.sessions ref))
    (hself : ∀ n, t = .connection n → (o'.hands n).Drives ref ((s.tasks t).after rest next).todo)
    (hothers : ∀ n, t ≠ .connection n → o'.hands n = o.hands n) : s'.Follows ref o' := by
  have hsessions : s'.shared.sessions = sh.sessions := by
    rw [hacted.shared, Shared.sessions_afterNext]
  refine ⟨hsessions ▸ hsession, fun n => ?_, fun hle => ?_⟩
  · by_cases ht : t = .connection n
    · have hdrives := hself n ht
      rw [← ht, hacted.self]
      exact hdrives
    · rw [hothers n ht, hacted.others _ (Ne.symm ht)]
      exact h.hands n
  · have hnext : s.shared.nextRef ≤ s'.shared.nextRef := by
      rw [hacted.shared, (sh.frame_afterNext (s.tasks t) next).nextRef]
      exact (Shared.id_of_perform hacted.perform).1
    rw [hsessions]
    rcases hfresh with hlt | hsame
    · exact absurd hlt (Nat.not_lt.mpr (hnext.trans hle))
    · exact (h.fresh (hnext.trans hle)).trans hsame

/-- A change of the hand of the handler that acts. -/
theorem State.Follows.of_setHand {n : Nat} {session : Session} {hand : Hand} (h : s.Follows ref o)
    (hacted : Acted s (.connection n) c s' a rest sh next) (hsession : session.Agrees (sh.sessions ref))
    (hfresh : ref < s.shared.nextRef ∨ (s.shared.sessions ref).Agrees (sh.sessions ref))
    (hdrives : hand.Drives ref ((s.tasks (.connection n)).after rest next).todo) :
    s'.Follows ref (({ o with session } : Outbox).setHand n hand) := by
  refine h.of_acted hacted hsession hfresh (fun m hm => ?_) fun m hm => ?_
  · cases hm
    show (Function.update o.hands n hand n).Drives ref _
    rw [Function.update_self]
    exact hdrives
  · exact Function.update_of_ne (fun heq => hm (congrArg TaskId.connection heq.symm)) _ _

/-- A handler outside the loop acts, or the task of a delayed will. -/
theorem State.Follows.act_outside (inv : Inv s) (h : s.Follows ref o)
    (hacted : Acted s t c s' a rest sh next)
    (houtside : ∀ n, t = .connection n → o.hands n = .idle)
    (hquiet : ∀ x ∈ a :: rest, x.tracked ref = none) :
    ∃ o', o.Continues o' (s.shared.assigns ref a).length ∧ s'.Follows ref o' := by
  have hrest : ∀ x ∈ rest, x.tracked ref = none := fun x hx => hquiet x (List.mem_cons_of_mem a hx)
  have hkept : (∀ x ∈ next.more, x.tracked ref = none) → ∀ o' : Outbox, o'.hands = o.hands →
      ∀ n, t = .connection n → (o'.hands n).Drives ref ((s.tasks t).after rest next).todo := by
    intro hmore o' hhands n ht
    rw [hhands, houtside n ht]
    exact Hand.drives_idle fun x hx => (mem_todo_after hx).elim (hmore x) (hrest x)
  have hlast : a.session = some ref → ref < s.shared.nextRef := by
    intro hsession
    obtain ⟨A, hA, rfl⟩ := (inv.task t).session a (hacted.todo ▸ List.mem_cons_self ..) ref hsession
    exact ((inv.task t).accepted A hA).1
  have htouches : s.shared.Touches c ref sh a next := touches_of_performed hacted.performed h.fresh
  cases htouches with
  | leaves _ _ hsame hmore hnone =>
      refine ⟨o, ?_, h.of_acted hacted (h.session.trans hsame) (.inr hsame) (hkept hmore o rfl)
        fun _ _ => rfl⟩
      rw [hnone]
      exact Outbox.Continues.refl o
  | routes publish sender sub clone hactive hone hsame =>
      rw [hone]
      refine ⟨_, Outbox.Continues.route o clone, h.of_acted hacted ?_
        (.inl (inv.sound.active hactive).2.2) (hkept (fun x hx => by cases hx) _ rfl)
        fun _ _ => rfl⟩
      refine Session.Agrees.trans ?_ hsame
      rw [← h.session.packetId]
      exact h.session.nextPacketId.trackQosPublish _ _
  | acknowledges packetId hsame =>
      exact ⟨_, Outbox.Continues.acknowledge o packetId,
        h.of_acted hacted ((h.session.acknowledge packetId).trans hsame) (.inl (hlast rfl))
          (hkept (fun x hx => by cases hx) _ rfl) fun _ _ => rfl⟩
  | opens keepAlive control horder hsame =>
      obtain ⟨A, hA, -⟩ := (inv.task t).session (.openSession ref)
        (hacted.todo ▸ List.mem_cons_self ..) ref rfl
      cases t with
      | delay token => cases ((inv.task _).delay token rfl).1.symm.trans hA
      | connection n =>
          refine ⟨_, Outbox.Continues.reconnect (h.session.pending_eq ▸ horder) (houtside n rfl),
            h.of_setHand hacted (h.session.drainPending.trans hsame) (.inl (hlast rfl)) ?_⟩
          show Hand.Drives ref _ ((Shared.redelivery ref c.order ++ [.acceptSession ref]) ++ rest)
          rw [List.append_assoc]
          refine .next c.order _ fun x hx => ?_
          rcases List.mem_cons.mp hx with rfl | hx
          · rfl
          · exact hrest x hx
  | tracks packetId publish =>
      have htracks := hquiet (.track ref packetId publish) (List.mem_cons_self ..)
      rw [Action.tracked, if_pos rfl] at htracks
      cases htracks

theorem State.Follows.act (inv : Inv s) (h : s.Follows ref o)
    (hacted : Acted s t c s' a rest sh next) :
    ∃ o', o.Continues o' (s.shared.assigns ref a).length ∧ s'.Follows ref o' := by
  cases t with
  | delay token =>
      have hrouting := ((inv.task (.delay token)).delay token rfl).2.2
      rw [hacted.todo] at hrouting
      refine h.act_outside inv hacted (fun n ht => by cases ht) fun x hx => ?_
      have hx' := hrouting x hx
      cases x with
      | track => cases hx'
      | _ => rfl
  | connection n =>
      rcases (hacted.todo ▸ h.hands n : (o.hands n).Drives ref (a :: rest)).cases with
        ⟨hidle, hquiet⟩ | ⟨packetId, publish, more, tail, hhand, rfl, rfl, htail⟩ |
        ⟨packet, more, tail, hhand, rfl, rfl, htail⟩
      · refine h.act_outside inv hacted (fun m hm => ?_) hquiet
        cases hm
        exact hidle
      · -- the message is tracked again, and is to be written
        obtain ⟨A, hA, href⟩ := (inv.task (.connection n)).session
          (.track ref packetId (redelivered packetId publish)) (hacted.todo ▸ List.mem_cons_self ..)
          ref rfl
        have hlast := ((inv.task (.connection n)).accepted A hA).1
        cases hacted.performed with
        | track =>
            refine ⟨_, Outbox.Continues.redeliver hhand, h.of_setHand hacted ?_ (.inl (href ▸ hlast))
              (.write _ more tail htail)⟩
            rw [sessions_setSession]
            exact h.session.trackQosPublish _ _
      · cases hacted.performed with
        | write _ hok =>
            exact ⟨_, Outbox.Continues.written true hhand,
              h.of_setHand hacted h.session (.inr (Session.Agrees.refl _)) (.next more tail htail)⟩
        | writeFails _ hok =>
            exact ⟨_, Outbox.Continues.written false hhand,
              h.of_setHand hacted h.session (.inr (Session.Agrees.refl _))
                (.next [] [] fun x hx => by cases hx)⟩

/-! ## Runs -/

/-- The identifiers that the session gives out in a step. -/
def State.assigns (ref : Ref) (s : State) : Label → List UInt16
  | .act t _ =>
    match (s.tasks t).todo with
    | a :: _ => s.shared.assigns ref a
    | [] => []
  | _ => []

/-- The identifiers that the session gives out in a run. -/
def givenOut (config : Config) (ref : Ref) (ls : List Label) : List UInt16 :=
  emitted State.step (State.assigns ref) (.start config) ls

/-- No event starts a redelivery. -/
theorem tracked_of_arises {task : Task} {e : Event} {todo : List Action}
    (h : Shared.Arises sh task e todo) : ∀ x ∈ todo, x.tracked ref = none := by
  have hending : ∀ (session : Option Ref) (result : Except BrokerError Unit),
      ∀ x ∈ (session.map sh.ending).getD [] ++ [.finish result], x.tracked ref = none := by
    intro session result
    cases session <;> simp [Shared.ending, Action.tracked]
  cases h with
  | control msg =>
      cases msg with
      | deliver publish => simp [Shared.handleControl, Action.tracked]
      | disconnect reason =>
          simp only [Shared.handleControl]
          split
          · split <;> simp [Action.tracked]
          · simp [Action.tracked]
  | timeout | idle => simp [Shared.ending, Action.tracked]
  | packet p ref' _ _ _ htodo =>
      cases p with
      | publish p =>
          simp only [Shared.handlePacket, Shared.handlePublish] at htodo
          split at htodo
          · split at htodo <;> cases htodo <;> simp [Action.tracked]
          · cases htodo
            simp [Action.tracked]
          · cases htodo
      | disconnect p =>
          simp only [Shared.handlePacket] at htodo
          split at htodo <;> cases htodo <;> simp [Shared.ending, Action.tracked]
      | _ =>
          cases htodo
          simp [Action.tracked]
  | ignored => simp
  | preConnect p =>
      cases p with
      | connect connect =>
          simp only [Shared.handlePreConnect]
          split <;> simp [Action.tracked]
      | _ => simp [Shared.handlePreConnect, Action.tracked]
  | endOfStream => exact hending _ _
  | readError => exact hending _ _

theorem State.Follows.event {n : Nat} {e : Event} {todo : List Action} (h : s.Follows ref o)
    (hhandled : Handled s (.connection n) e s' todo) : s'.Follows ref o := by
  have hshared : s'.shared.sessions = s.shared.sessions ∧ s'.shared.nextRef = s.shared.nextRef := by
    rcases Shared.handle_shared hhandled.handle with heq | ⟨_, _, _, -, -, -, heq⟩ <;>
      rw [heq] <;> exact ⟨rfl, rfl⟩
  refine ⟨hshared.1 ▸ h.session, fun m => ?_, fun hle => ?_⟩
  · by_cases hm : m = n
    · subst hm
      rw [(h.hands m).eq_idle hhandled.ready, hhandled.self]
      exact Hand.drives_idle (tracked_of_arises (Shared.arises_of_handle hhandled.handle))
    · rw [hhandled.others _ fun heq => hm (TaskId.connection.inj heq)]
      exact h.hands m
  · rw [hshared.1]
    exact h.fresh (hshared.2 ▸ hle)

theorem State.Follows.step {l : Label} (inv : Inv s) (h : s.Follows ref o)
    (hstep : s.step l = some s') :
    ∃ o', o.Continues o' (s.assigns ref l).length ∧ s'.Follows ref o' := by
  rcases step_cases hstep with ⟨n, e, todo, rfl, hhandled⟩ |
    ⟨t, c, a, rest, sh, next, rfl, hacted⟩ | ⟨token, rfl, hfired⟩ | ⟨accept, rfl, rfl⟩ |
    ⟨secs, rfl, -, rfl⟩
  · exact ⟨o, Outbox.Continues.refl o, h.event hhandled⟩
  · simpa only [State.assigns, hacted.todo] using h.act inv hacted
  · refine ⟨o, Outbox.Continues.refl o, ?_, fun n => ?_, ?_⟩
    · rw [hfired.shared]
      exact h.session
    · rw [hfired.others _ fun heq => by cases heq]
      exact h.hands n
    · rw [hfired.shared]
      exact h.fresh
  · exact ⟨o, Outbox.Continues.refl o, h.session, h.hands, h.fresh⟩
  · exact ⟨o, Outbox.Continues.refl o, h.session, h.hands, h.fresh⟩

variable {config : Config} {ls : List Label}

theorem follows_of_run (hrun : run State.step (.start config) ls = some s) (ref : Ref) :
    ∃ o, Outbox.empty.Continues o (givenOut config ref ls).length ∧ s.Follows ref o := by
  refine (invariant_with_run (I := fun ls s => Inv s ∧
    ∃ o, Outbox.empty.Continues o (givenOut config ref ls).length ∧ s.Follows ref o)
    ⟨Broker.inv_start config, .empty, Outbox.Continues.refl _, follows_start config ref⟩ ?_ hrun).2
  rintro ls s l s' hrun ⟨inv, o, hcontinues, hfollows⟩ hstep
  obtain ⟨o', hcontinues', hfollows'⟩ := hfollows.step inv hstep
  refine ⟨inv.step hstep, o', ?_, hfollows'⟩
  rw [givenOut, emitted_concat hrun, List.length_append]
  exact hcontinues.trans hcontinues'

/-- In every run of the broker, what becomes of the messages of a session is a run of an
outbox, which gives out the identifiers that the session does. -/
theorem outbox_of_run (hrun : run State.step (.start config) ls = some s) (ref : Ref) :
    ∃ ds o, run Outbox.step .empty ds = some o ∧ s.Follows ref o ∧
      o.assigned = (givenOut config ref ls).length := by
  obtain ⟨o, hcontinues, hfollows⟩ := follows_of_run hrun ref
  obtain ⟨ds, hds⟩ := hcontinues.run
  exact ⟨ds, o, hds, hfollows, hcontinues.assigned.trans (Nat.zero_add _)⟩

end

/-- The message of client 0 as it waits for client 1. -/
def waitingMessage : Publish :=
  withPacketId
    { Publish.default.setQos .atLeastOnce with topicName := "a/b", packetId := some 7 } 1

/-- The connection of the subscriber ends, and the next one begins to redeliver. -/
def redeliveryLabels : List Label :=
  connectLabels 0 (.new "y") 7 ++ connectLabels 1 (.new "x") 7 ++
    subscribeLabels 1 "a/+" .atLeastOnce ++ publishLabels 0 "a/b" .atLeastOnce (some 7) 5 ++
    .event 1 .endOfStream :: List.replicate 3 (.act (.connection 1) {}) ++
    packetLabels 2 (.connect (.new "x")) 5 ++
    [.act (.connection 2) { order := [(1, waitingMessage)] }]

theorem outbox_of_redeliveryLabels : ∃ s ds o,
    run State.step (.start defaultConfig) redeliveryLabels = some s ∧
      run Outbox.step .empty ds = some o ∧ s.Follows 1 o ∧ o.assigned = 1 := by
  have hgoes : (run State.step (.start defaultConfig) redeliveryLabels).isSome = true := by
    decide +kernel
  have hone : (givenOut defaultConfig 1 redeliveryLabels).length = 1 := by decide +kernel
  obtain ⟨s, hrun⟩ := Option.isSome_iff_exists.mp hgoes
  obtain ⟨ds, o, hds, hfollows, hassigned⟩ := outbox_of_run hrun 1
  exact ⟨s, ds, o, hrun, hds, hfollows, hassigned.trans hone⟩

/-! ## Identifiers of a session -/

section

variable {s : State} {ref : Ref} {config : Config} {ls : List Label}

/-- The identifiers of the messages of the session that the handler of `n` is to redeliver. -/
def State.redelivering (s : State) (ref : Ref) (n : Nat) : List UInt16 :=
  (s.tasks (.connection n)).todo.filterMap (Action.tracked ref)

/-- The unacknowledged messages of a session have identifiers of their own, in the map and in
the redelivery loops of its connections, and the next identifier is none of them. -/
structure State.Distinct (s : State) (ref : Ref) : Prop where
  pending : ∀ packetId ∈ (s.shared.sessions ref).pendingAck, packetId ≠ 0
  redelivering : ∀ n, ∀ packetId ∈ s.redelivering ref n,
    packetId ≠ 0 ∧ packetId ∉ (s.shared.sessions ref).pendingAck
  nodup : ∀ n, (s.redelivering ref n).Nodup
  apart : ∀ m n, m ≠ n → (s.redelivering ref m).Disjoint (s.redelivering ref n)
  next : (s.shared.sessions ref).nextPacketId.1 ≠ 0 ∧
    (s.shared.sessions ref).nextPacketId.1 ∉ (s.shared.sessions ref).pendingAck ∧
    ∀ n, (s.shared.sessions ref).nextPacketId.1 ∉ s.redelivering ref n

theorem filterMap_redelivery (rest : List (UInt16 × Publish)) :
    (Shared.redelivery ref rest).filterMap (Action.tracked ref) = rest.map Prod.fst := by
  induction rest with
  | nil => rfl
  | cons x rest ih =>
      show List.filterMap _ ([_, _] ++ Shared.redelivery ref rest) = _
      rw [List.filterMap_append, ih]
      simp [Action.tracked]

theorem Hand.Drives.filterMap_tracked {hand : Hand} {todo : List Action} (h : hand.Drives ref todo) :
    todo.filterMap (Action.tracked ref) = hand.rest.map Prod.fst := by
  cases h with
  | next rest tail htail =>
      rw [List.filterMap_append, filterMap_redelivery, List.filterMap_eq_nil_iff.mpr htail,
        List.append_nil]
  | write packet rest tail htail =>
      rw [List.filterMap_cons_none rfl, List.filterMap_append, filterMap_redelivery,
        List.filterMap_eq_nil_iff.mpr htail, List.append_nil]

/-- In every run of the broker in which a session has given out fewer than 65,535 identifiers,
its unacknowledged messages have identifiers of their own, whatever the connections of the
client were doing. -/
theorem distinct_of_run (hrun : run State.step (.start config) ls = some s)
    (hfew : (givenOut config ref ls).length < 65535) : s.Distinct ref := by
  obtain ⟨o, hcontinues, hfollows⟩ := follows_of_run hrun ref
  have hassigned : o.assigned < 65535 := by
    have := hcontinues.assigned
    have hzero : Outbox.empty.assigned = 0 := rfl
    omega
  have hinv : o.Inv := hcontinues.inv (Outbox.inv_start rfl rfl) (Nat.le_of_lt hassigned)
  have hmap := hfollows.session.pending
  have hloops : ∀ n, s.redelivering ref n = (o.hands n).rest.map Prod.fst :=
    fun n => (hfollows.hands n).filterMap_tracked
  have hnonzero : ∀ packetId, o.Outstanding packetId → packetId ≠ 0 := by
    intro packetId hout
    obtain ⟨-, heq⟩ := hinv.serial packetId hout
    exact heq ▸ idAt_ne_zero _
  have hnext : (s.shared.sessions ref).nextPacketId.1 = idAt o.assigned :=
    hfollows.session.packetId.trans hinv.next
  have hunused : ¬ o.Outstanding (idAt o.assigned) := hinv.fresh (Outbox.recent_of_few hassigned)
  refine ⟨fun packetId hmem => ?_, fun n packetId hmem => ?_, fun n => ?_, fun m n hne => ?_, ?_⟩
  · exact hnonzero packetId (.inl (hmap ▸ hmem))
  · rw [hloops] at hmem
    obtain ⟨x, hx, rfl⟩ := List.mem_map.mp hmem
    exact ⟨hnonzero x.1 (.inr ⟨n, x, hx, rfl⟩), hmap ▸ hinv.apart n x hx⟩
  · rw [hloops]
    exact hinv.nodup n
  · rw [hloops, hloops]
    intro packetId hm hn
    obtain ⟨x, hx, rfl⟩ := List.mem_map.mp hm
    obtain ⟨y, hy, heq⟩ := List.mem_map.mp hn
    exact hinv.disjoint m n hne x hx y hy heq.symm
  · rw [hnext]
    refine ⟨idAt_ne_zero _, fun hmem => hunused (.inl (hmap ▸ hmem)), fun n hmem => ?_⟩
    rw [hloops] at hmem
    obtain ⟨x, hx, heq⟩ := List.mem_map.mp hmem
    exact hunused (.inr ⟨n, x, hx, heq⟩)

end

theorem distinct_of_redeliveryLabels : ∃ s,
    run State.step (.start defaultConfig) redeliveryLabels = some s ∧ s.redelivering 1 2 = [1] ∧
      s.Distinct 1 := by
  have hfacts : (run State.step (.start defaultConfig) redeliveryLabels).map
      (fun s => s.redelivering 1 2) = some [1] := by
    decide +kernel
  obtain ⟨s, hrun, hloop⟩ := Option.map_eq_some_iff.mp hfacts
  exact ⟨s, hrun, hloop, distinct_of_run hrun (by decide +kernel)⟩

end Broker
end Vaux
