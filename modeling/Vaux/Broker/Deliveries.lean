import Vaux.Broker.Session
import Vaux.Machine.Run

/-!
# Deliveries of a session

The life of `pending_ack` over any sequence of routed publishes, acknowledgements and
reconnects.  A connection that resumes the session drains the map and tracks the
messages again one by one, each before it is written; in between other tasks route
publishes into the same map.
-/

namespace Vaux
namespace Broker

open Wire Mqtt Machine

/-- The redelivery loop of one connection: the messages it has not tracked again yet,
and whether it is writing the one it tracked last. -/
structure Hand where
  rest : List (UInt16 × Publish)
  writing : Bool
  deriving DecidableEq

def Hand.idle : Hand := { rest := [], writing := false }

/-- A session with the connections that redeliver its messages.  The last two fields are
history, which no step reads: how many identifiers have been assigned, and the number of
the last assignment of each. -/
structure Outbox where
  session : Session
  hands : Nat → Hand
  assigned : Nat
  serial : UInt16 → Nat

inductive Delivery where
  /-- The branch of `route_publish` for a QoS above 0. -/
  | route (publish : Publish)
  | acknowledge (packetId : UInt16)
  /-- `drain_pending` on a new connection. -/
  | reconnect (connection : Nat) (order : List (UInt16 × Publish))
  /-- The body of the redelivery loop up to the write. -/
  | redeliver (connection : Nat)
  | written (connection : Nat) (ok : Bool)

namespace Outbox

def start (session : Session) : Outbox where
  session := session
  hands := fun _ => .idle
  assigned := 0
  serial := fun _ => 0

def setHand (self : Outbox) (c : Nat) (hand : Hand) : Outbox :=
  { self with hands := Function.update self.hands c hand }

def step (self : Outbox) : Delivery → Option Outbox
  | .route publish =>
    let packetId := self.session.nextPacketId.1
    some
      { self with
        session := self.session.nextPacketId.2.trackQosPublish packetId (withPacketId publish packetId)
        assigned := self.assigned + 1
        serial := Function.update self.serial packetId self.assigned }
  | .acknowledge packetId => some { self with session := (self.session.acknowledge packetId).2 }
  | .reconnect c order =>
    if order.Perm self.session.pending ∧ self.hands c = .idle then
      some ({ self with session := self.session.drainPending }.setHand c { rest := order, writing := false })
    else none
  | .redeliver c =>
    match self.hands c with
    | { rest := (packetId, publish) :: rest, writing := false } =>
      some ({ self with
        session := self.session.trackQosPublish packetId (redelivered packetId publish) }.setHand c
          { rest, writing := true })
    | _ => none
  | .written c ok =>
    if (self.hands c).writing then
      -- the messages a failed write leaves in the loop are dropped with it
      some (self.setHand c { rest := if ok then (self.hands c).rest else [], writing := false })
    else none

end Outbox

/-! ## Identifiers -/

/-- The identifier of the `n`-th assignment. -/
def idAt (n : Nat) : UInt16 := UInt16.ofNat (n % 65535 + 1)

theorem toNat_idAt (n : Nat) : (idAt n).toNat = n % 65535 + 1 := by
  rw [idAt, UInt16.toNat_ofNat']
  omega

theorem idAt_ne_zero (n : Nat) : idAt n ≠ 0 := by
  intro h
  have hn := toNat_idAt n
  rw [h] at hn
  simp at hn

theorem mod_eq_of_idAt_eq {m n : Nat} (h : idAt m = idAt n) : m % 65535 = n % 65535 := by
  have hm := toNat_idAt m
  have hn := toNat_idAt n
  rw [h] at hm
  omega

theorem idAt_succ (n : Nat) : idAt (n + 1) = if idAt n + 1 = 0 then 1 else idAt n + 1 := by
  have hn := toNat_idAt n
  have hsucc := toNat_idAt (n + 1)
  have hadd : (idAt n + 1).toNat = (n % 65535 + 2) % 65536 := by
    rw [UInt16.toNat_add, hn]
    rfl
  have hzero : idAt n + 1 = 0 ↔ (n % 65535 + 2) % 65536 = 0 := by
    rw [← hadd]
    exact ⟨fun h => by rw [h]; rfl, fun h => UInt16.toNat_inj.mp h⟩
  apply UInt16.toNat_inj.mp
  by_cases h : idAt n + 1 = 0
  · rw [if_pos h, hsucc, UInt16.toNat_one]
    have := hzero.mp h
    omega
  · rw [if_neg h, hsucc, hadd]
    have := mt hzero.mpr h
    omega

namespace Outbox

/-- A message that waits for its acknowledgement, in the map or in a redelivery loop. -/
def Outstanding (o : Outbox) (packetId : UInt16) : Prop :=
  packetId ∈ o.session.pendingAck ∨ ∃ c, ∃ x ∈ (o.hands c).rest, x.1 = packetId

/-- Fewer than 65,535 identifiers have been assigned since that of any message which is
still outstanding. -/
def Recent (o : Outbox) : Prop :=
  ∀ packetId, o.Outstanding packetId → o.assigned < o.serial packetId + 65535

/-- What the step must not do to `pending_ack`. -/
structure Keeps (o : Outbox) (d : Delivery) : Prop where
  /-- The identifier assigned is not zero and not that of a message in the map. -/
  unused : ∀ publish, d = .route publish →
    o.session.nextPacketId.1 ≠ 0 ∧ o.session.nextPacketId.1 ∉ o.session.pendingAck
  /-- A message stays unless it is acknowledged or drained. -/
  stays : ∀ o' packetId publish, o.step d = some o' →
    o.session.pendingAck.lookup packetId = some publish →
    o'.session.pendingAck.lookup packetId = some publish ∨
      d = .acknowledge packetId ∨ ∃ c order, d = .reconnect c order

structure Inv (o : Outbox) : Prop where
  next : o.session.nextPacketIdField = idAt o.assigned
  serial : ∀ packetId, o.Outstanding packetId →
    o.serial packetId < o.assigned ∧ idAt (o.serial packetId) = packetId
  apart : ∀ c, ∀ x ∈ (o.hands c).rest, x.1 ∉ o.session.pendingAck
  nodup : ∀ c, ((o.hands c).rest.map Prod.fst).Nodup
  disjoint : ∀ c c', c ≠ c' → ∀ x ∈ (o.hands c).rest, ∀ x' ∈ (o.hands c').rest, x.1 ≠ x'.1

variable {o o' : Outbox}

theorem inv_start {s : Session} (hnext : s.nextPacketIdField = 1) (hpending : s.pendingAck = ∅) :
    (start s).Inv where
  next := by rw [start, hnext]; rfl
  serial := by
    rintro packetId (hmem | ⟨c, x, hx, -⟩)
    · rw [start, hpending] at hmem
      exact absurd hmem (AList.notMem_empty _)
    · cases hx
  apart c x hx := by cases hx
  nodup c := List.nodup_nil
  disjoint c c' _ x hx := by cases hx

/-- The next identifier is that of no outstanding message, if these are recent. -/
theorem Inv.fresh (h : o.Inv) (hrecent : o.Recent) : ¬ o.Outstanding (idAt o.assigned) := by
  intro hout
  obtain ⟨hlt, heq⟩ := h.serial _ hout
  have hmod := mod_eq_of_idAt_eq heq
  have hle := hrecent _ hout
  omega

theorem mem_track {s : Session} {packetId k : UInt16} {publish : Publish} :
    k ∈ (s.trackQosPublish packetId publish).pendingAck ↔ k = packetId ∨ k ∈ s.pendingAck :=
  AList.mem_insert _

theorem mem_acknowledge {s : Session} {packetId k : UInt16} :
    k ∈ (s.acknowledge packetId).2.pendingAck ↔ k ≠ packetId ∧ k ∈ s.pendingAck :=
  AList.mem_erase

theorem mem_pendingAck {s : Session} {x : UInt16 × Publish} (h : x ∈ s.pending) :
    x.1 ∈ s.pendingAck := by
  rw [Session.mem_pending_iff] at h
  exact AList.lookup_isSome.mp (by rw [h]; rfl)

theorem nodup_pending (s : Session) : (s.pending.map Prod.fst).Nodup := by
  have hkeys : s.pending.map Prod.fst = s.pendingAck.keys := by
    simp only [Session.pending, List.map_map, AList.keys, List.keys]
    rfl
  rw [hkeys]
  exact s.pendingAck.keys_nodup

section

variable {c : Nat} {order : List (UInt16 × Publish)} {packetId : UInt16} {publish : Publish}

theorem Inv.route (h : o.Inv) (hrecent : o.Recent) (hs : o.step (.route publish) = some o') :
    o'.Inv := by
  cases hs
  have hid : o.session.nextPacketId.1 = idAt o.assigned := h.next
  have hfresh := h.fresh hrecent
  rw [hid]
  refine ⟨?_, ?_, ?_, h.nodup, h.disjoint⟩
  · show (if o.session.nextPacketIdField + 1 = 0 then 1 else o.session.nextPacketIdField + 1) =
      idAt (o.assigned + 1)
    rw [h.next, ← idAt_succ]
  · intro k hk
    by_cases heq : k = idAt o.assigned
    · subst heq
      show Function.update o.serial _ o.assigned _ < o.assigned + 1 ∧
        idAt (Function.update o.serial _ o.assigned _) = _
      rw [Function.update_self]
      exact ⟨Nat.lt_succ_self _, rfl⟩
    · have hout : o.Outstanding k := by
        rcases hk with hmem | hhand
        · exact .inl ((mem_track.mp hmem).resolve_left heq)
        · exact .inr hhand
      show Function.update o.serial _ o.assigned k < o.assigned + 1 ∧
        idAt (Function.update o.serial _ o.assigned k) = k
      rw [Function.update_of_ne heq]
      obtain ⟨hlt, hk'⟩ := h.serial k hout
      exact ⟨Nat.lt_succ_of_lt hlt, hk'⟩
  · intro c x hx hmem
    rcases mem_track.mp hmem with heq | hmem
    · exact hfresh (.inr ⟨c, x, hx, heq⟩)
    · exact h.apart c x hx hmem

theorem Inv.acknowledge (h : o.Inv) (hs : o.step (.acknowledge packetId) = some o') : o'.Inv := by
  cases hs
  refine ⟨h.next, ?_, ?_, h.nodup, h.disjoint⟩
  · rintro k (hmem | hhand)
    · exact h.serial k (.inl (mem_acknowledge.mp hmem).2)
    · exact h.serial k (.inr hhand)
  · intro c x hx hmem
    exact h.apart c x hx (mem_acknowledge.mp hmem).2

/-- A change of one hand to messages that were outstanding and are in no other hand. -/
theorem Inv.setHand (h : o.Inv) {session : Session} {hand : Hand}
    (hnext : session.nextPacketIdField = o.session.nextPacketIdField)
    (hmap : ∀ k, k ∈ session.pendingAck → o.Outstanding k)
    (hmapApart : ∀ c', c' ≠ c → ∀ x ∈ (o.hands c').rest, x.1 ∉ session.pendingAck)
    (hhand : ∀ x ∈ hand.rest, o.Outstanding x.1 ∧ x.1 ∉ session.pendingAck ∧
      ∀ c', c' ≠ c → ∀ x' ∈ (o.hands c').rest, x.1 ≠ x'.1)
    (hnodup : (hand.rest.map Prod.fst).Nodup) :
    (({ o with session } : Outbox).setHand c hand).Inv := by
  have hcases : ∀ c', (Function.update o.hands c hand) c' = if c' = c then hand else o.hands c' := by
    intro c'
    rw [Function.update_apply]
  refine ⟨hnext.trans h.next, ?_, ?_, ?_, ?_⟩
  · intro k hk
    refine h.serial k ?_
    rcases hk with hmem | ⟨c', x, hx, rfl⟩
    · exact hmap k hmem
    · simp only [Outbox.setHand, hcases] at hx
      split at hx
      · exact (hhand x hx).1
      · exact .inr ⟨c', x, hx, rfl⟩
  · intro c' x hx
    simp only [Outbox.setHand, hcases] at hx
    split at hx
    · exact (hhand x hx).2.1
    · exact hmapApart c' (by assumption) x hx
  · intro c'
    simp only [Outbox.setHand, hcases]
    split
    · exact hnodup
    · exact h.nodup c'
  · intro c₁ c₂ hne x hx x' hx'
    simp only [Outbox.setHand, hcases] at hx hx'
    split at hx <;> split at hx'
    · exact absurd (by simp [*]) hne
    · exact (hhand x hx).2.2 c₂ (by assumption) x' hx'
    · exact ((hhand x' hx').2.2 c₁ (by assumption) x hx).symm
    · exact h.disjoint c₁ c₂ hne x hx x' hx'

theorem Inv.reconnect (h : o.Inv) (hs : o.step (.reconnect c order) = some o') : o'.Inv := by
  simp only [step] at hs
  split at hs
  case isFalse => cases hs
  case isTrue hguard =>
    obtain ⟨hperm, -⟩ := hguard
    cases hs
    have hmem : ∀ x ∈ order, x.1 ∈ o.session.pendingAck :=
      fun x hx => mem_pendingAck (hperm.mem_iff.mp hx)
    refine h.setHand rfl ?_ ?_ ?_ ?_
    · intro k hk
      exact absurd hk (AList.notMem_empty k)
    · intro c' _ x _
      exact AList.notMem_empty _
    · intro x hx
      refine ⟨.inl (hmem x hx), AList.notMem_empty _, ?_⟩
      intro c' _ x' hx' heq
      exact h.apart c' x' hx' (heq ▸ hmem x hx)
    · exact ((hperm.map Prod.fst).nodup_iff).mpr (nodup_pending _)

theorem redeliver_eq_some (hs : o.step (.redeliver c) = some o') :
    ∃ packetId publish rest, o.hands c = { rest := (packetId, publish) :: rest, writing := false } ∧
      o' = ({ o with session := o.session.trackQosPublish packetId (redelivered packetId publish) } :
        Outbox).setHand c { rest, writing := true } := by
  simp only [step] at hs
  split at hs
  · cases hs
    exact ⟨_, _, _, by assumption, rfl⟩
  · cases hs

theorem Inv.redeliver (h : o.Inv) (hs : o.step (.redeliver c) = some o') : o'.Inv := by
  obtain ⟨packetId, publish, rest, hhand, rfl⟩ := redeliver_eq_some hs
  have hnodup := h.nodup c
  rw [hhand] at hnodup
  obtain ⟨hhead, hrest⟩ := List.nodup_cons.mp hnodup
  have hin : ∀ x ∈ (packetId, publish) :: rest, x ∈ (o.hands c).rest := by
    intro x hx
    rw [hhand]
    exact hx
  have hfirst := hin _ List.mem_cons_self
  refine h.setHand rfl ?_ ?_ ?_ hrest
  · intro k hk
    rcases mem_track.mp hk with rfl | hk
    · exact .inr ⟨c, _, hfirst, rfl⟩
    · exact .inl hk
  · intro c' hne x hx hmem
    rcases mem_track.mp hmem with heq | hmem
    · exact h.disjoint c' c hne x hx _ hfirst heq
    · exact h.apart c' x hx hmem
  · intro x hx
    have hx' := hin x (List.mem_cons_of_mem _ hx)
    refine ⟨.inr ⟨c, x, hx', rfl⟩, ?_, fun c' hne x' h' => h.disjoint c c' hne.symm x hx' x' h'⟩
    intro hmem
    rcases mem_track.mp hmem with heq | hmem
    · exact hhead (List.mem_map.mpr ⟨x, hx, heq⟩)
    · exact h.apart c x hx' hmem

theorem written_eq_some {ok : Bool} (hs : o.step (.written c ok) = some o') :
    o' = o.setHand c { rest := if ok then (o.hands c).rest else [], writing := false } := by
  simp only [step] at hs
  split at hs
  · cases hs
    rfl
  · cases hs

theorem Inv.written (h : o.Inv) {ok : Bool} (hs : o.step (.written c ok) = some o') : o'.Inv := by
  obtain rfl := written_eq_some hs
  have hsub : (if ok then (o.hands c).rest else []).Sublist (o.hands c).rest := by
    split
    · exact List.Sublist.refl _
    · exact List.nil_sublist _
  refine h.setHand rfl (fun k hk => .inl hk) (fun c' _ => h.apart c') ?_
    (List.Nodup.sublist (hsub.map Prod.fst) (h.nodup c))
  intro x hx
  have hx' := hsub.subset hx
  exact ⟨.inr ⟨c, x, hx', rfl⟩, h.apart c x hx',
    fun c' hne x' h' => h.disjoint c c' hne.symm x hx' x' h'⟩

end

theorem Inv.step {d : Delivery} (h : o.Inv) (hrecent : ∀ publish, d = .route publish → o.Recent)
    (hs : o.step d = some o') : o'.Inv := by
  cases d with
  | route publish => exact h.route (hrecent publish rfl) hs
  | acknowledge packetId => exact h.acknowledge hs
  | reconnect c order => exact h.reconnect hs
  | redeliver c => exact h.redeliver hs
  | written c ok => exact h.written hs

theorem Inv.keeps {d : Delivery} (h : o.Inv) (hrecent : ∀ publish, d = .route publish → o.Recent) :
    o.Keeps d := by
  constructor
  · rintro publish rfl
    have hid : o.session.nextPacketId.1 = idAt o.assigned := h.next
    rw [hid]
    exact ⟨idAt_ne_zero _, fun hmem => h.fresh (hrecent publish rfl) (.inl hmem)⟩
  · intro o' k p hs hlookup
    have hmem : k ∈ o.session.pendingAck := AList.lookup_isSome.mp (by rw [hlookup]; rfl)
    cases d with
    | route publish =>
        cases hs
        left
        have hne : k ≠ o.session.nextPacketId.1 := by
          rintro rfl
          exact h.fresh (hrecent publish rfl) (.inl (h.next ▸ hmem))
        rw [Session.lookup_trackQosPublish, if_neg hne]
        exact hlookup
    | acknowledge packetId =>
        cases hs
        by_cases heq : k = packetId
        · exact .inr (.inl (by rw [heq]))
        · left
          rw [Session.lookup_acknowledge, if_neg heq]
          exact hlookup
    | reconnect c order => exact .inr (.inr ⟨c, order, rfl⟩)
    | redeliver c =>
        obtain ⟨packetId, publish, rest, hhand, rfl⟩ := redeliver_eq_some hs
        left
        have hne : k ≠ packetId := by
          rintro rfl
          exact h.apart c (k, publish) (by rw [hhand]; exact List.mem_cons_self) hmem
        show (o.session.trackQosPublish _ _).pendingAck.lookup k = _
        rw [Session.lookup_trackQosPublish, if_neg hne]
        exact hlookup
    | written c ok =>
        obtain rfl := written_eq_some hs
        exact .inl hlookup

/-- A run of a session in which no publish is routed while a message is outstanding
whose identifier was assigned 65,535 assignments before. -/
def WithinWindow (o : Outbox) (ds : List Delivery) : Prop :=
  Along step (fun o d => ∀ publish, d = .route publish → o.Recent) o ds

/-- Identifiers are never zero and never those of messages in `pending_ack`, and no
message is overwritten, in every run within the window. -/
theorem keeps_of_withinWindow (id : String) (will : Option WillMessage) (keepAlive : Nat)
    (control : ChannelId) {ds : List Delivery}
    (h : (start (.new id will keepAlive control)).WithinWindow ds) :
    Along step Keeps (start (.new id will keepAlive control)) ds := by
  refine along_of_invariant (I := Inv) ?_ (inv_start rfl rfl) h
  intro o d o' hinv hrecent hs
  exact ⟨hinv.step hrecent hs, hinv.keeps hrecent⟩

theorem recent_of_few (h : o.assigned < 65535) : o.Recent := by
  intro packetId _
  omega

/-- One message acknowledged, another on its way. -/
theorem keeps_of_two_routed :
    Along step Keeps (start (.new "a" none 60 0))
      [.route .default, .acknowledge 1, .route .default] := by
  apply keeps_of_withinWindow
  intro o₁ h₁
  refine ⟨fun _ _ => recent_of_few (by decide), ?_⟩
  cases h₁
  intro o₂ h₂
  refine ⟨fun _ h => (by cases h), ?_⟩
  cases h₂
  intro o₃ h₃
  exact ⟨fun _ _ => recent_of_few (by decide), trivial⟩

theorem run_routes (s : Session) (publish : Publish) (hnext : s.nextPacketIdField = 1) (n : Nat) :
    ∃ o, run step (start s) (List.replicate n (.route publish)) = some o ∧
      o.session.nextPacketIdField = idAt n ∧ (0 < n → idAt 0 ∈ o.session.pendingAck) := by
  induction n with
  | zero => exact ⟨start s, rfl, hnext, fun h => absurd h (Nat.lt_irrefl 0)⟩
  | succ n ih =>
      obtain ⟨o, hrun, hid, hmem⟩ := ih
      rw [List.replicate_succ']
      refine ⟨_, run_concat_eq_some.mpr ⟨o, hrun, rfl⟩, ?_, ?_⟩
      · show (if o.session.nextPacketIdField + 1 = 0 then 1 else o.session.nextPacketIdField + 1) = _
        rw [hid, ← idAt_succ]
      · intro _
        refine mem_track.mpr ?_
        rcases Nat.eq_zero_or_pos n with rfl | hpos
        · exact .inl hid.symm
        · exact .inr (hmem hpos)

/-- With no acknowledgement, the publish behind the first 65,535 is given the identifier
of the first. -/
theorem id_assigned_twice :
    ¬ ∀ ds, Along step Keeps (start (.new "a" none 60 0)) ds := by
  intro h
  obtain ⟨o, hrun, hid, hmem⟩ := run_routes (.new "a" none 60 0) .default rfl 65535
  have hlast := ((along_append hrun).mp (h (_ ++ [.route .default]))).2
  obtain ⟨hkeeps, -⟩ := hlast _ rfl
  refine (hkeeps.unused .default rfl).2 ?_
  have heq : o.session.nextPacketId.1 = idAt 0 := hid
  rw [heq]
  exact hmem (by decide)

end Outbox

end Broker
end Vaux
