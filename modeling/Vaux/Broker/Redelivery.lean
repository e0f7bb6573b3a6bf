import Vaux.Broker.Deliveries
import Vaux.Broker.Forward

/-!
# Redelivery

What becomes of the messages of `pending_ack` when a connection resumes the session:
the map is emptied, and each message is put back right before it is written.  If a write
fails, the messages behind it are in no map any more.  Meanwhile another connection may
resume the session and empty the map again.
-/

namespace Vaux
namespace Broker

open Wire Mqtt Machine

/-- The number of publishes routed to the session. -/
def Delivery.routes (ds : List Delivery) : Nat :=
  ds.countP fun
    | .route _ => true
    | _ => false

open Delivery

/-- The identifier assigned after `n` others, if `first` is the next one. -/
def idAfter (first : UInt16) : Nat → UInt16
  | 0 => first
  | n + 1 => idAfter (if first + 1 = 0 then 1 else first + 1) n

/-- No publish routed in `ds` is given the identifier `packetId`. -/
def Unassigned (s : Session) (ds : List Delivery) (packetId : UInt16) : Prop :=
  ∀ i < routes ds, idAfter s.nextPacketIdField i ≠ packetId

namespace Outbox

/-- The messages with the identifier that the loop of the connection `c` has yet to track. -/
def ahead (o : Outbox) (packetId : UInt16) (c : Nat) : List Publish :=
  ((o.hands c).rest.filter fun x => x.1 = packetId).map Prod.snd

/-- A loop has yet to track a message with the identifier. -/
def Waiting (o : Outbox) (packetId : UInt16) : Prop := ∃ c, o.ahead packetId c ≠ []

/-- The step is a write that fails in a loop that has yet to track a message with the
identifier. -/
def Drops (packetId : UInt16) (o : Outbox) : Delivery → Prop
  | .written c false => o.ahead packetId c ≠ []
  | _ => False

/-- No message of the map waits in a loop as well. -/
def Apart (o : Outbox) : Prop := ∀ c, ∀ x ∈ (o.hands c).rest, x.1 ∉ o.session.pendingAck

section

variable {o o' : Outbox} {c : Nat} {d : Delivery} {ds : List Delivery} {packetId : UInt16}
  {publish : Publish} {order : List (UInt16 × Publish)}

theorem unassigned_tail {publish : Publish}
    (h : Unassigned o.session (.route publish :: ds) packetId) :
    o.session.nextPacketId.1 ≠ packetId ∧ Unassigned o.session.nextPacketId.2 ds packetId := by
  have hcount : routes (.route publish :: ds) = routes ds + 1 := List.countP_cons_of_pos rfl
  constructor
  · exact h 0 (by omega)
  · intro i hi
    exact h (i + 1) (by omega)

theorem reconnect_eq_some (hs : o.step (.reconnect c order) = some o') :
    order.Perm o.session.pending ∧ o.hands c = .idle ∧
      o' = ({ o with session := o.session.drainPending } : Outbox).setHand c
        { rest := order, writing := false } := by
  simp only [step] at hs
  split at hs
  · rename_i hguard
    cases hs
    exact ⟨hguard.1, hguard.2, rfl⟩
  · cases hs

/-! ## What a step does to one message -/

theorem ahead_setHand_self (o : Outbox) (packetId : UInt16) (c : Nat) (hand : Hand) :
    (o.setHand c hand).ahead packetId c =
      (hand.rest.filter fun x => x.1 = packetId).map Prod.snd := by
  simp only [ahead, setHand, Function.update_self]

theorem ahead_setHand_of_ne (o : Outbox) (packetId : UInt16) {c c' : Nat} (hne : c' ≠ c)
    (hand : Hand) : (o.setHand c hand).ahead packetId c' = o.ahead packetId c' := by
  simp only [ahead, setHand, Function.update_of_ne hne]

/-- Among messages with identifiers of their own there is one with this one, or none. -/
theorem filter_of_nodup {l : List (UInt16 × Publish)} (hnodup : (l.map Prod.fst).Nodup)
    (hmem : (packetId, publish) ∈ l) :
    (l.filter fun x => x.1 = packetId).map Prod.snd = [publish] := by
  induction l with
  | nil => cases hmem
  | cons x l ih =>
      obtain ⟨hx, hnodup⟩ := List.nodup_cons.mp hnodup
      rcases List.mem_cons.mp hmem with rfl | hmem
      · have hnone : l.filter (fun x => x.1 = packetId) = [] := by
          refine List.filter_eq_nil_iff.mpr fun y hy heq => hx ?_
          exact List.mem_map.mpr ⟨y, hy, of_decide_eq_true heq⟩
        rw [List.filter_cons_of_pos (by simp), hnone]
        rfl
      · have hne : x.1 ≠ packetId := by
          intro heq
          exact hx (List.mem_map.mpr ⟨_, hmem, heq.symm⟩)
        rw [List.filter_cons_of_neg (by simp [hne])]
        exact ih hnodup hmem

/-- What a loop takes over of the map. -/
theorem filter_of_perm {s : Session} (hperm : order.Perm s.pending) :
    (order.filter fun x => x.1 = packetId).map Prod.snd =
      (s.pendingAck.lookup packetId).toList := by
  have hnodup : (order.map Prod.fst).Nodup :=
    ((hperm.map Prod.fst).nodup_iff).mpr (nodup_pending s)
  cases hlookup : s.pendingAck.lookup packetId with
  | none =>
      have hnone : order.filter (fun x => x.1 = packetId) = [] := by
        refine List.filter_eq_nil_iff.mpr fun x hx heq => ?_
        have hx' := Session.mem_pending_iff.mp (hperm.mem_iff.mp hx)
        rw [of_decide_eq_true heq, hlookup] at hx'
        cases hx'
      rw [hnone]
      rfl
  | some publish =>
      refine filter_of_nodup hnodup (hperm.mem_iff.mpr ?_)
      exact Session.mem_pending_iff.mpr hlookup

/-- What a step does to the message with the identifier, if it neither acknowledges it nor
gives its identifier to another one. -/
inductive Effect (packetId : UInt16) (o : Outbox) (d : Delivery) (o' : Outbox) : Prop where
  | same (hmap : o'.session.pendingAck.lookup packetId = o.session.pendingAck.lookup packetId)
    (hloops : ∀ c, o'.ahead packetId c = o.ahead packetId c) (hdrops : ¬ Drops packetId o d)
  | drained (c : Nat) (hmap : o'.session.pendingAck.lookup packetId = none)
    (hbefore : o.ahead packetId c = [])
    (hself : o'.ahead packetId c = (o.session.pendingAck.lookup packetId).toList)
    (hothers : ∀ c' ≠ c, o'.ahead packetId c' = o.ahead packetId c') (hdrops : ¬ Drops packetId o d)
  | tracked (c : Nat) (publish : Publish)
    (hmap : o'.session.pendingAck.lookup packetId = some (redelivered packetId publish))
    (hself : o.ahead packetId c = publish :: o'.ahead packetId c)
    (hothers : ∀ c' ≠ c, o'.ahead packetId c' = o.ahead packetId c') (hdrops : ¬ Drops packetId o d)
  | dropped (c : Nat) (hmap : o'.session.pendingAck.lookup packetId = o.session.pendingAck.lookup packetId)
    (hbefore : o.ahead packetId c ≠ []) (hself : o'.ahead packetId c = [])
    (hothers : ∀ c' ≠ c, o'.ahead packetId c' = o.ahead packetId c') (hdrops : Drops packetId o d)

theorem effect_of_redeliver (hs : o.step (.redeliver c) = some o') :
    Effect packetId o (.redeliver c) o' := by
  obtain ⟨k, publish, rest, hhand, rfl⟩ := redeliver_eq_some hs
  have hothers : ∀ c' ≠ c, (({ o with
      session := o.session.trackQosPublish k (redelivered k publish) } : Outbox).setHand c
        { rest, writing := true }).ahead packetId c' = o.ahead packetId c' :=
    fun c' hne => ahead_setHand_of_ne _ packetId hne _
  by_cases heq : k = packetId
  · subst heq
    refine .tracked c publish ?_ ?_ hothers not_false
    · exact AList.lookup_insert _
    · rw [ahead_setHand_self, ahead, hhand, List.filter_cons_of_pos (by simp)]
      rfl
  · refine .same ?_ (fun c' => ?_) not_false
    · show (o.session.trackQosPublish k _).pendingAck.lookup packetId = _
      rw [Session.lookup_trackQosPublish, if_neg (Ne.symm heq)]
    · by_cases hc : c' = c
      · subst hc
        rw [ahead_setHand_self, ahead, hhand, List.filter_cons_of_neg (by simp [heq])]
      · exact hothers c' hc

theorem effect_of_written {ok : Bool} (hs : o.step (.written c ok) = some o') :
    Effect packetId o (.written c ok) o' := by
  obtain rfl := written_eq_some hs
  have hothers : ∀ c' ≠ c,
      (o.setHand c { rest := if ok then (o.hands c).rest else [], writing := false }).ahead packetId c' =
        o.ahead packetId c' :=
    fun c' hne => ahead_setHand_of_ne _ packetId hne _
  cases ok with
  | true =>
      refine .same rfl (fun c' => ?_) not_false
      by_cases hc : c' = c
      · subst hc
        exact ahead_setHand_self ..
      · exact hothers c' hc
  | false =>
      by_cases hnil : o.ahead packetId c = []
      · refine .same rfl (fun c' => ?_) (fun hdrops => hdrops hnil)
        by_cases hc : c' = c
        · subst hc
          rw [ahead_setHand_self, hnil]
          rfl
        · exact hothers c' hc
      · exact .dropped c rfl hnil (ahead_setHand_self ..) hothers hnil

theorem effect_of_step (hs : o.step d = some o') (hack : d ≠ .acknowledge packetId)
    (hroute : ∀ publish, d = .route publish → o.session.nextPacketId.1 ≠ packetId) :
    Effect packetId o d o' := by
  cases d with
  | route publish =>
      cases hs
      refine .same ?_ (fun _ => rfl) not_false
      show (o.session.nextPacketId.2.trackQosPublish _ _).pendingAck.lookup packetId = _
      rw [Session.lookup_trackQosPublish, if_neg (Ne.symm (hroute publish rfl))]
      rfl
  | acknowledge k =>
      cases hs
      refine .same ?_ (fun _ => rfl) not_false
      show (o.session.acknowledge k).2.pendingAck.lookup packetId = _
      rw [Session.lookup_acknowledge, if_neg fun heq => hack (congrArg _ heq.symm)]
  | reconnect c order =>
      obtain ⟨hperm, hidle, rfl⟩ := reconnect_eq_some hs
      refine .drained c (AList.lookup_empty packetId) ?_ ?_
        (fun c' hne => ahead_setHand_of_ne _ packetId hne _) not_false
      · rw [ahead, hidle]
        rfl
      · rw [ahead_setHand_self]
        exact filter_of_perm hperm
  | redeliver c => exact effect_of_redeliver hs
  | written c ok => exact effect_of_written hs

/-! ## Where a message is -/

/-- The message is in the map or in one loop. -/
inductive Stands (packetId : UInt16) (publish : Publish) (o : Outbox) : Prop where
  | kept (hmap : o.session.pendingAck.lookup packetId = some publish)
    (hloops : ∀ c, o.ahead packetId c = [])
  | ahead (c : Nat) (p : Publish) (hmap : o.session.pendingAck.lookup packetId = none)
    (hself : o.ahead packetId c = [p]) (hsame : redelivered packetId p = publish)
    (hothers : ∀ c' ≠ c, o.ahead packetId c' = [])

/-- The message is nowhere. -/
structure Lost (packetId : UInt16) (o : Outbox) : Prop where
  map : o.session.pendingAck.lookup packetId = none
  loops : ∀ c, o.ahead packetId c = []

theorem Stands.step (h : o.Stands packetId publish) (heffect : Effect packetId o d o')
    (hsame : redelivered packetId publish = publish) (hdrops : ¬ Drops packetId o d) :
    o'.Stands packetId publish := by
  cases heffect with
  | same hmap hloops =>
      cases h with
      | kept hmap' hloops' => exact .kept (hmap.trans hmap') fun c => (hloops c).trans (hloops' c)
      | ahead c p hmap' hself hp hothers =>
          exact .ahead c p (hmap.trans hmap') ((hloops c).trans hself) hp
            fun c' hne => (hloops c').trans (hothers c' hne)
  | drained c hmap hbefore hself hothers =>
      cases h with
      | kept hmap' hloops' =>
          rw [hmap'] at hself
          exact .ahead c publish hmap hself hsame
            fun c' hne => (hothers c' hne).trans (hloops' c')
      | ahead c₀ p hmap' hself' hp hothers' =>
          have hne : c₀ ≠ c := by
            rintro rfl
            cases hself'.symm.trans hbefore
          refine .ahead c₀ p hmap ((hothers c₀ hne).trans hself') hp fun c' hc' => ?_
          by_cases hc : c' = c
          · subst hc
            rw [hself, hmap']
            rfl
          · exact (hothers c' hc).trans (hothers' c' hc')
  | tracked c p hmap hself hothers =>
      cases h with
      | kept hmap' hloops' => cases (hloops' c).symm.trans hself
      | ahead c₀ p' hmap' hself' hp hothers' =>
          have heq : c = c₀ := by
            by_contra hne
            cases (hothers' c hne).symm.trans hself
          subst heq
          obtain ⟨rfl, hnil⟩ := List.cons.inj (hself'.symm.trans hself)
          refine .kept (hmap.trans (congrArg some hp)) fun c' => ?_
          by_cases hc : c' = c
          · subst hc
            exact hnil.symm
          · exact (hothers c' hc).trans (hothers' c' hc)
  | dropped c _ _ _ _ hdropped => exact absurd hdropped hdrops

theorem Stands.lost (h : o.Stands packetId publish) (heffect : Effect packetId o d o')
    (hdrops : Drops packetId o d) : o'.Lost packetId := by
  cases heffect with
  | same _ _ hkeeps => exact absurd hdrops hkeeps
  | drained _ _ _ _ _ hkeeps => exact absurd hdrops hkeeps
  | tracked _ _ _ _ _ hkeeps => exact absurd hdrops hkeeps
  | dropped c hmap hbefore hself hothers =>
      cases h with
      | kept hmap' hloops' => exact absurd (hloops' c) hbefore
      | ahead c₀ p hmap' hself' hp hothers' =>
          have heq : c = c₀ := by
            by_contra hne
            exact hbefore (hothers' c hne)
          subst heq
          refine ⟨hmap.trans hmap', fun c' => ?_⟩
          by_cases hc : c' = c
          · subst hc
            exact hself
          · exact (hothers c' hc).trans (hothers' c' hc)

theorem Lost.step (h : o.Lost packetId) (heffect : Effect packetId o d o') : o'.Lost packetId := by
  cases heffect with
  | same hmap hloops => exact ⟨hmap.trans h.map, fun c => (hloops c).trans (h.loops c)⟩
  | drained c hmap hbefore hself hothers =>
      refine ⟨hmap, fun c' => ?_⟩
      by_cases hc : c' = c
      · subst hc
        rw [hself, h.map]
        rfl
      · exact (hothers c' hc).trans (h.loops c')
  | tracked c p hmap hself => cases (h.loops c).symm.trans hself
  | dropped c hmap hbefore => exact absurd (h.loops c) hbefore

/-- A step of a run that neither acknowledges the message nor gives its identifier away. -/
theorem effect_of_cons (hs : o.step d = some o') (hack : .acknowledge packetId ∉ d :: ds)
    (hid : Unassigned o.session (d :: ds) packetId) :
    Effect packetId o d o' ∧ .acknowledge packetId ∉ ds ∧ Unassigned o'.session ds packetId := by
  rw [List.mem_cons, not_or] at hack
  refine ⟨effect_of_step hs (Ne.symm hack.1) ?_, hack.2, ?_⟩
  · rintro publish rfl
    exact (unassigned_tail hid).1
  · cases d with
    | route publish =>
        cases hs
        exact (unassigned_tail hid).2
    | acknowledge k =>
        cases hs
        exact hid
    | reconnect c order =>
        obtain ⟨-, -, rfl⟩ := reconnect_eq_some hs
        exact hid
    | redeliver c =>
        obtain ⟨k, publish, rest, -, rfl⟩ := redeliver_eq_some hs
        exact hid
    | written c ok =>
        obtain rfl := written_eq_some hs
        exact hid

theorem lost_of_run (hrun : run step o ds = some o') (h : o.Lost packetId)
    (hack : .acknowledge packetId ∉ ds) (hid : Unassigned o.session ds packetId) :
    o'.Lost packetId := by
  induction ds generalizing o with
  | nil =>
      cases hrun
      exact h
  | cons d ds ih =>
      obtain ⟨t, hs, hrun⟩ := run_cons_eq_some.mp hrun
      obtain ⟨heffect, hack, hid⟩ := effect_of_cons hs hack hid
      exact ih hrun (h.step heffect) hack hid

/-- A message is in the map or in one loop as long as no write fails in front of it, and
nowhere from then on. -/
theorem stands_or_lost_of_run (hrun : run step o ds = some o') (h : o.Stands packetId publish)
    (hsame : redelivered packetId publish = publish) (hack : .acknowledge packetId ∉ ds)
    (hid : Unassigned o.session ds packetId) :
    Along step (fun o d => ¬ Drops packetId o d) o ds ∧ o'.Stands packetId publish ∨
      ¬ Along step (fun o d => ¬ Drops packetId o d) o ds ∧ o'.Lost packetId := by
  induction ds generalizing o with
  | nil =>
      cases hrun
      exact .inl ⟨trivial, h⟩
  | cons d ds ih =>
      obtain ⟨t, hs, hrun⟩ := run_cons_eq_some.mp hrun
      obtain ⟨heffect, hack, hid⟩ := effect_of_cons hs hack hid
      by_cases hdrops : Drops packetId o d
      · refine .inr ⟨fun halong => (halong t hs).1 hdrops, ?_⟩
        exact lost_of_run hrun (h.lost heffect hdrops) hack hid
      · rcases ih hrun (h.step heffect hsame hdrops) hack hid with ⟨halong, hstands⟩ | ⟨hnot, hlost⟩
        · exact .inl ⟨halong.cons hdrops hs, hstands⟩
        · exact .inr ⟨fun halong => hnot (halong t hs).2, hlost⟩

/-- Where the messages are that a loop has drained. -/
theorem stands_of_reconnect (hs : o.step (.reconnect c order) = some o') (hapart : o.Apart)
    {x : UInt16 × Publish} (hx : x ∈ order) : o'.Stands x.1 (redelivered x.1 x.2) := by
  obtain ⟨hperm, hidle, rfl⟩ := reconnect_eq_some hs
  have hlookup := Session.mem_pending_iff.mp (hperm.mem_iff.mp hx)
  refine .ahead c x.2 (AList.lookup_empty x.1) ?_ rfl fun c' hne => ?_
  · rw [ahead_setHand_self]
    exact (filter_of_perm hperm).trans (by rw [hlookup]; rfl)
  · rw [ahead_setHand_of_ne _ _ hne]
    have hnone : (o.hands c').rest.filter (fun y => y.1 = x.1) = [] := by
      refine List.filter_eq_nil_iff.mpr fun y hy heq => hapart c' y hy ?_
      rw [of_decide_eq_true heq]
      exact mem_pendingAck (hperm.mem_iff.mp hx)
    exact congrArg (List.map Prod.snd) hnone

end

end Outbox

open Outbox

/-- The messages that were drained in the order `order` and have not been acknowledged in
`ds` are in the map again, under their identifiers. -/
def Restored (o : Outbox) (order : List (UInt16 × Publish)) (ds : List Delivery) : Prop :=
  ∀ x ∈ order, .acknowledge x.1 ∉ ds →
    o.session.pendingAck.lookup x.1 = some (redelivered x.1 x.2)

/-- The map holds every unacknowledged message again exactly if no write fails in a loop that
has yet to track it, and no loop has yet to track it at the end: the loop that has drained it,
or that of a connection that has drained the map after it. -/
theorem restored_iff {o o' : Outbox} {order : List (UInt16 × Publish)} {ds : List Delivery} {c : Nat}
    (hrun : run step o (.reconnect c order :: ds) = some o') (hapart : o.Apart)
    (hid : ∀ x ∈ order, Unassigned o.session ds x.1) :
    Restored o' order ds ↔ ∀ x ∈ order, .acknowledge x.1 ∉ ds →
      Along step (fun o d => ¬ Drops x.1 o d) o (.reconnect c order :: ds) ∧ ¬ o'.Waiting x.1 := by
  obtain ⟨t, hs, hrun⟩ := run_cons_eq_some.mp hrun
  refine forall₂_congr fun x hx => forall_congr' fun hack => ?_
  have hsession : t.session.nextPacketIdField = o.session.nextPacketIdField := by
    obtain ⟨-, -, rfl⟩ := reconnect_eq_some hs
    rfl
  have hid' : Unassigned t.session ds x.1 := by
    unfold Unassigned
    rw [hsession]
    exact hid x hx
  have halong : Along step (fun o d => ¬ Drops x.1 o d) o (.reconnect c order :: ds) ↔
      Along step (fun o d => ¬ Drops x.1 o d) t ds :=
    ⟨fun h => (h t hs).2, fun h => h.cons not_false hs⟩
  rw [halong]
  rcases stands_or_lost_of_run hrun (stands_of_reconnect hs hapart hx)
    (redelivered_redelivered x.1 x.2) hack hid' with ⟨hkeeps, hstands⟩ | ⟨hnot, hlost⟩
  · cases hstands with
    | kept hmap hloops => exact ⟨fun _ => ⟨hkeeps, fun ⟨c, hc⟩ => hc (hloops c)⟩, fun _ => hmap⟩
    | ahead c p hmap hself =>
        constructor
        · intro hmap'
          cases hmap.symm.trans hmap'
        · intro h
          exact absurd ⟨c, by rw [hself]; exact List.cons_ne_nil _ _⟩ h.2
  · constructor
    · intro hmap
      cases hlost.map.symm.trans hmap
    · intro h
      exact absurd h.1 hnot

/-- Two unacknowledged messages. -/
def twoPending : Session :=
  ((Session.new "a" none 60 0).trackQosPublish 2 .default).trackQosPublish 1 .default

/-- Connection 1 resumes the session while connection 0 writes the first message; then it is
connection 0 whose last write fails. -/
def resumedTwice : List Delivery :=
  [.redeliver 0, .reconnect 1 [(1, redelivered 1 .default)], .redeliver 1, .written 1 true,
    .written 0 true, .redeliver 0, .written 0 false]

theorem restored_of_resumedTwice : ∃ o,
    run step (start twoPending) (.reconnect 0 twoPending.pending :: resumedTwice) = some o ∧
      Restored o twoPending.pending resumedTwice ∧
        ∀ x ∈ twoPending.pending, Along step (fun o d => ¬ Drops x.1 o d) (start twoPending)
          (.reconnect 0 twoPending.pending :: resumedTwice) ∧ ¬ o.Waiting x.1 := by
  have hgoes : (run step (start twoPending)
      (.reconnect 0 twoPending.pending :: resumedTwice)).map (fun o => twoPending.pending.all fun x =>
        o.session.pendingAck.lookup x.1 = some (redelivered x.1 x.2)) = some true := by
    decide +kernel
  obtain ⟨o, hrun, hall⟩ := Option.map_eq_some_iff.mp hgoes
  have hrestored : Restored o twoPending.pending resumedTwice :=
    fun x hx _ => of_decide_eq_true (List.all_eq_true.mp hall x hx)
  have hid : ∀ x ∈ twoPending.pending, Unassigned twoPending resumedTwice x.1 :=
    fun x _ i hi => by cases hi
  refine ⟨o, hrun, hrestored, fun x hx => ?_⟩
  exact (restored_iff hrun (fun c y hy => by cases hy) hid).mp hrestored x hx (by simp [resumedTwice])

/-- The write of the first of two messages fails, and the second is lost. -/
theorem failed_write_loses_message :
    ¬ ∀ (o o' : Outbox) (order : List (UInt16 × Publish)) (ds : List Delivery) (c : Nat),
      run step o (.reconnect c order :: ds) = some o' → o'.hands c = .idle →
        Restored o' order ds := by
  intro h
  have hgoes : (run step (start twoPending)
      [.reconnect 0 twoPending.pending, .redeliver 0, .written 0 false]).map (fun o =>
        (o.hands 0, o.session.pendingAck.lookup 2)) = some (.idle, none) := by
    decide +kernel
  obtain ⟨o, hrun, ho⟩ := Option.map_eq_some_iff.mp hgoes
  obtain ⟨hidle, hnone⟩ := Prod.mk.inj ho
  have hkept := h _ o twoPending.pending [.redeliver 0, .written 0 false] 0 hrun hidle
    (2, .default) (by decide +kernel) (by simp)
  cases hnone.symm.trans hkept

end Broker
end Vaux
