import Vaux.Broker.Invariant
import Vaux.Broker.Transitions

/-!
# What a CONNECT is granted

The keep alive and the session expiry are settled before the session is chosen.  The CONNACK
carries them; the session has the keep alive of the CONNECT it was made for, and of the
expiries those that were granted.  The machine of this module is the broker with the exchange
that each connection is in.
-/

namespace Vaux
namespace Broker

open Wire Mqtt Machine

/-! ## The terms -/

/-- The value between the bounds that is nearest to the requested one. -/
def Config.clamp (config : Config) (requested : Nat) : Nat :=
  max config.defaultKeepAlive (min config.maxKeepAlive requested)

/-- A CONNECT, and the expiry that the pool is configured with when it is negotiated. -/
structure Exchange where
  connect : Connect
  configured : Nat

namespace Exchange

def keepAlive (x : Exchange) : Nat := x.connect.keepAlive.toNat

/-- The expiry that is asked for, if it is positive. -/
def requested (x : Exchange) : Option Nat :=
  x.connect.sessionExpiryInterval.bind fun expiry =>
    if 0 < expiry.toNat then some expiry.toNat else none

/-- What the exchange grants by its terms. -/
def grant (x : Exchange) : Option Nat := x.requested.map (min x.configured)

/-- What the broker grants: the configured expiry goes through 32 bits. -/
def granted (x : Exchange) : Option Nat := x.requested.map (min (x.configured % 2 ^ 32))

end Exchange

/-- The bounds of the keep alive are in order and have 16 bits. -/
structure Config.Sane (config : Config) : Prop where
  le : config.defaultKeepAlive ≤ config.maxKeepAlive
  lt : config.maxKeepAlive < 2 ^ 16

/-- The pool goes by the bounds of the configuration. -/
structure Shared.Bounds (sh : Shared) : Prop where
  sane : sh.config.Sane
  defaultKeepAlive : sh.pool.defaultKeepAlive = sh.config.defaultKeepAlive
  maxKeepAlive : sh.pool.maxKeepAlive = sh.config.maxKeepAlive

/-- The CONNACK gives the client a value between the bounds, unless it would be zero. -/
def Config.Tells (config : Config) (x : Exchange) (ack : ConnAck) : Prop :=
  (ack.serverKeepAlive.getD x.connect.keepAlive).toNat =
    if config.maxKeepAlive = 0 then x.keepAlive else config.clamp x.keepAlive

/-- What `handle_connect` has settled is what the exchange comes to. -/
structure Config.Settles (config : Config) (x : Exchange) (a : Admission) : Prop where
  connect : a.connect = x.connect
  keepAlive : a.keepAlive = config.clamp x.keepAlive * 3 / 2
  sessionExpiry : a.sessionExpiry = x.granted
  ack : config.Tells x a.ack

section

variable {sh : Shared}

theorem toNat_setServerKeepAlive (ack : ConnAck) (secs requested : UInt16) :
    ((ack.setServerKeepAlive secs).serverKeepAlive.getD requested).toNat =
      if secs.toNat = 0 then requested.toNat else secs.toNat := by
  simp only [ConnAck.setServerKeepAlive, ← UInt16.toNat_inj, UInt16.toNat_zero]
  split <;> rfl

theorem negotiateKeepAlive_eq (h : sh.Bounds) (x : Exchange) :
    (negotiateKeepAlive sh.pool x.connect.keepAlive .default).1 =
        sh.config.clamp x.keepAlive * 3 / 2 ∧
      sh.config.Tells x (negotiateKeepAlive sh.pool x.connect.keepAlive .default).2 := by
  have hle := h.sane.le
  have hlt := h.sane.lt
  have hdefault : sh.pool.defaultKeepAliveSecs.toNat = sh.config.defaultKeepAlive := by
    rw [SessionPool.defaultKeepAliveSecs, UInt16.toNat_ofNat', h.defaultKeepAlive]
    omega
  have hmax : sh.pool.maxKeepAliveSecs.toNat = sh.config.maxKeepAlive := by
    rw [SessionPool.maxKeepAliveSecs, UInt16.toNat_ofNat', h.maxKeepAlive]
    omega
  have hkeepAlive : x.keepAlive = x.connect.keepAlive.toNat := rfl
  rw [negotiateKeepAlive, Config.Tells]
  split
  · -- too short
    rename_i hshort
    rw [UInt16.lt_iff_toNat_lt, hdefault] at hshort
    have hclamp : sh.config.clamp x.keepAlive = sh.config.defaultKeepAlive := by
      rw [Config.clamp]
      omega
    refine ⟨by rw [hclamp, brokerKeepAlive, hdefault], ?_⟩
    rw [toNat_setServerKeepAlive, hclamp, hdefault, if_neg (by omega), if_neg (by omega)]
  · split
    · -- too long
      rename_i hlong
      rw [gt_iff_lt, UInt16.lt_iff_toNat_lt, hmax] at hlong
      have hclamp : sh.config.clamp x.keepAlive = sh.config.maxKeepAlive := by
        rw [Config.clamp]
        omega
      refine ⟨by rw [hclamp, brokerKeepAlive, hmax], ?_⟩
      rw [toNat_setServerKeepAlive, hclamp, hmax]
      rfl
    · rename_i hshort hlong
      rw [UInt16.lt_iff_toNat_lt, hdefault] at hshort
      rw [gt_iff_lt, UInt16.lt_iff_toNat_lt, hmax] at hlong
      have hclamp : sh.config.clamp x.keepAlive = x.keepAlive := by
        rw [Config.clamp]
        omega
      refine ⟨by rw [hclamp, brokerKeepAlive, hkeepAlive], ?_⟩
      rw [hclamp, ite_self]
      rfl

/-- The expiry has no part in the keep alive of the CONNACK. -/
theorem negotiateExpiry_eq (x : Exchange) (hconfigured : sh.pool.sessionExpiry = x.configured)
    (ack : ConnAck) :
    (negotiateExpiry sh.pool x.connect.sessionExpiryInterval ack).1 = x.granted ∧
      (negotiateExpiry sh.pool x.connect.sessionExpiryInterval ack).2.serverKeepAlive =
        ack.serverKeepAlive := by
  unfold negotiateExpiry Exchange.granted Exchange.requested
  cases x.connect.sessionExpiryInterval with
  | none => exact ⟨rfl, rfl⟩
  | some requested =>
      have hmax : (UInt32.ofNat sh.pool.sessionExpiry).toNat = x.configured % 2 ^ 32 := by
        rw [UInt32.toNat_ofNat', hconfigured]
      simp only [Option.bind_some, gt_iff_lt, UInt32.lt_iff_toNat_lt, UInt32.toNat_zero, hmax]
      split
      · split
        · refine ⟨?_, rfl⟩
          simp only [Option.map_some, Option.some.injEq]
          omega
        · refine ⟨?_, rfl⟩
          simp only [Option.map_some, Option.some.injEq]
          omega
      · exact ⟨rfl, rfl⟩

theorem settles_negotiate (h : sh.Bounds) (connect : Connect) (uuid : String) :
    sh.config.Settles { connect, configured := sh.pool.sessionExpiry }
      (negotiate sh.pool connect uuid) := by
  let x : Exchange := { connect, configured := sh.pool.sessionExpiry }
  obtain ⟨hkeepAlive, htells⟩ := negotiateKeepAlive_eq h x
  obtain ⟨hexpiry, hack⟩ := negotiateExpiry_eq x rfl
    (negotiateKeepAlive sh.pool connect.keepAlive .default).2
  unfold negotiate
  simp only
  split
  · refine ⟨rfl, hkeepAlive, hexpiry, ?_⟩
    rw [Config.Tells] at htells ⊢
    rw [← htells]
    exact congrArg (fun told => (told.getD connect.keepAlive).toNat) hack
  · refine ⟨rfl, hkeepAlive, hexpiry, ?_⟩
    rw [Config.Tells] at htells ⊢
    rw [← htells]
    exact congrArg (fun told => (told.getD connect.keepAlive).toNat) hack

end

/-! ## What the actions leave -/

/-- The terms a session goes by are the same. -/
structure Session.SameTerms (s s' : Session) : Prop where
  keepAlive : s'.keepAlive = s.keepAlive
  sessionExpiry : s'.sessionExpiry = s.sessionExpiry

namespace Shared

section

variable {sh sh' : Shared} {t : TaskId} {c : Choice} {a : Action} {next : Next}

/-- The configuration, and what the pool has of it, are those of the start. -/
structure SameBounds (sh sh' : Shared) : Prop where
  config : sh'.config = sh.config
  defaultKeepAlive : sh'.pool.defaultKeepAlive = sh.pool.defaultKeepAlive
  maxKeepAlive : sh'.pool.maxKeepAlive = sh.pool.maxKeepAlive

theorem SameBounds.bounds (h : sh.SameBounds sh') (hbounds : sh.Bounds) : sh'.Bounds := by
  obtain ⟨hsane, hdefault, hmax⟩ := hbounds
  exact ⟨by rwa [h.config], by rw [h.config, h.defaultKeepAlive, hdefault],
    by rw [h.config, h.maxKeepAlive, hmax]⟩

theorem Frame.sameBounds (h : sh.Frame sh') : sh.SameBounds sh' :=
  ⟨h.config, by rw [h.pool], by rw [h.pool]⟩

theorem sameBounds_choose (sh : Shared) (a : Admission) : sh.SameBounds (sh.choose a).1 := by
  obtain ⟨existing, pool, -, hremove, heq, -⟩ | ⟨ref, pool, sessions, hactivate, heq, -⟩ |
    ⟨ref, -, heq, -⟩ | ⟨-, -, heq, -⟩ := choose_cases sh a
  · have hpool : pool = (sh.pool.remove a.sessionId).2 := by rw [hremove]
    rw [heq, hpool]
    unfold SessionPool.remove
    split
    · exact ⟨rfl, rfl, rfl⟩
    · split <;> exact ⟨rfl, rfl, rfl⟩
  · rw [heq]
    unfold SessionPool.activate at hactivate
    split at hactivate
    · cases hactivate
      exact ⟨rfl, rfl, rfl⟩
    · cases hactivate
  · rw [heq]
    exact ⟨rfl, rfl, rfl⟩
  · rw [heq]
    exact ⟨rfl, rfl, rfl⟩

theorem sameBounds_of_perform (h : sh.perform t c a = some (sh', next)) : sh.SameBounds sh' := by
  cases ha : a.changesPool with
  | false => exact (frame_of_perform h ha).sameBounds
  | true =>
      cases performed_of_perform h with
      | reject => exact ⟨rfl, rfl, rfl⟩
      | enter x _ _ =>
          obtain ⟨hconfig, hdefault, hmax⟩ := sameBounds_choose sh x
          exact ⟨hconfig, hdefault, hmax⟩
      | register x =>
          refine ⟨rfl, ?_, ?_⟩
          · simp only [register, SessionPool.add]
            split <;> rfl
          · simp only [register, SessionPool.add]
            split <;> rfl
      | adopt x ref =>
          obtain ⟨hconfig, hdefault, hmax⟩ := (frame_adopt sh x ref).sameBounds
          exact ⟨hconfig, hdefault, hmax⟩
      | deactivate sessionId _ =>
          simp only [SessionPool.deactivate]
          split <;> exact ⟨rfl, rfl, rfl⟩
      | _ => cases ha

theorem sameTerms_setSession {ref : Ref} {session : Session}
    (h : (sh.sessions ref).SameTerms session) (ref' : Ref) :
    (sh.sessions ref').SameTerms ((sh.setSession ref session).sessions ref') := by
  by_cases hne : ref' = ref
  · subst hne
    simpa [setSession] using h
  · simp only [setSession, Function.update_of_ne hne]
    exact ⟨rfl, rfl⟩

theorem sameTerms_setConnected (sessions : Sessions) (ref ref' : Ref) (connected : Bool) :
    (sessions ref').SameTerms
      (Function.update sessions ref ((sessions ref).setConnected connected) ref') := by
  by_cases hne : ref' = ref
  · subst hne
    rw [Function.update_self]
    exact ⟨rfl, rfl⟩
  · rw [Function.update_of_ne hne]
    exact ⟨rfl, rfl⟩

theorem sameTerms_choose (sh : Shared) (a : Admission) (ref' : Ref) :
    (sh.sessions ref').SameTerms ((sh.choose a).1.sessions ref') := by
  obtain ⟨existing, pool, -, -, heq, -⟩ | ⟨ref, pool, sessions, hactivate, heq, -⟩ |
    ⟨ref, -, heq, -⟩ | ⟨-, -, heq, -⟩ := choose_cases sh a
  · rw [heq]
    exact ⟨rfl, rfl⟩
  · rw [heq]
    unfold SessionPool.activate at hactivate
    split at hactivate
    · cases hactivate
      exact sameTerms_setConnected sh.sessions ref ref' true
    · cases hactivate
  · rw [heq]
    exact ⟨rfl, rfl⟩
  · rw [heq]
    exact ⟨rfl, rfl⟩

theorem sameTerms_handOver {publish out : Publish} {qos : QoSLevel} {target target' : Session}
    (h : handOver publish qos target = .ok (out, target')) : target.SameTerms target' := by
  unfold handOver at h
  cases hqos : publish.qos with
  | ok q =>
      rw [hqos, Outcome.bind_ok] at h
      simp only at h
      split at h
      · cases h
        exact ⟨rfl, rfl⟩
      · cases h
        exact ⟨rfl, rfl⟩
  | err e => simp [hqos, Outcome.bind] at h
  | panic => simp [hqos, Outcome.bind] at h

/-- No action changes the terms of a session that there is, but the one that grants it an
expiry. -/
theorem sameTerms_of_performed (h : Performed sh t c a sh' next) {ref : Ref}
    (href : ref < sh.nextRef) (hgrant : ∀ e, a ≠ .grantExpiry ref (some e)) :
    (sh.sessions ref).SameTerms (sh'.sessions ref) := by
  have hset : ∀ ref' session, (sh.sessions ref').SameTerms session →
      (sh.sessions ref).SameTerms ((sh.setSession ref' session).sessions ref) :=
    fun ref' session hsame => sameTerms_setSession hsame ref
  cases h with
  | enter x _ _ => exact sameTerms_choose sh x ref
  | register x =>
      show (sh.sessions ref).SameTerms ((sh.enroll x none).1.sessions ref)
      rw [(sessions_enroll sh x none).1 ref (Nat.ne_of_lt href)]
      exact ⟨rfl, rfl⟩
  | adopt x ref' =>
      obtain ⟨ch, hadopt⟩ := sessions_adopt sh x ref'
      show (sh.sessions ref).SameTerms ((sh.adopt x ref').sessions ref)
      rw [hadopt]
      exact hset ref' _ ⟨rfl, rfl⟩
  | grantExpiry ref' expiry _ =>
      have hne : ref ≠ ref' := fun heq => hgrant expiry (by rw [heq])
      simp only [setSession, Function.update_of_ne hne]
      exact ⟨rfl, rfl⟩
  | openSession ref' _ _ => exact hset ref' _ ⟨rfl, rfl⟩
  | track ref' packetId publish _ => exact hset ref' _ ⟨rfl, rfl⟩
  | noWill ref' _ _ => exact hset ref' _ ⟨rfl, rfl⟩
  | publishWill ref' will _ _ _ => exact hset ref' _ ⟨rfl, rfl⟩
  | delayWill ref' will _ _ _ => exact hset ref' _ ⟨rfl, rfl⟩
  | clearWill ref' _ => exact hset ref' _ ⟨rfl, rfl⟩
  | acknowledge ref' packetId _ => exact hset ref' _ ⟨rfl, rfl⟩
  | setPendingWill ref' token _ =>
      have hcancel : (sh.cancel (sh.sessions ref').pendingWill).sessions = sh.sessions :=
        sessions_cancel _
      have hsame : ((sh.cancel (sh.sessions ref').pendingWill).sessions ref').SameTerms
          ((sh.sessions ref').setPendingWill token).2 := by
        rw [hcancel]
        exact ⟨rfl, rfl⟩
      have hset' := sameTerms_setSession hsame ref
      rwa [hcancel] at hset'
  | deactivate sessionId _ =>
      simp only [SessionPool.deactivate]
      split
      · exact sameTerms_setConnected _ _ _ _
      · exact ⟨rfl, rfl⟩
  | deliver publish sender sub _ hdeliver =>
      cases delivered_of_deliver hdeliver with
      | own | absent => exact ⟨rfl, rfl⟩
      | sent ref' out target _ hover _ _ => exact hset ref' target (sameTerms_handOver hover)
      | dropped ref' out target _ hover => exact hset ref' target (sameTerms_handOver hover)
  | _ => exact ⟨rfl, rfl⟩

/-- A new session has the keep alive that has been settled, and no expiry. -/
theorem nextRef_of_performed (h : Performed sh t c a sh' next) :
    sh'.nextRef = sh.nextRef ∧ (∀ x, a ≠ .enroll x none) ∨
      ∃ x, a = .enroll x none ∧ sh'.nextRef = sh.nextRef + 1 ∧
        (sh'.sessions sh.nextRef).keepAlive = x.keepAlive ∧
        (sh'.sessions sh.nextRef).sessionExpiry = none := by
  have hchoose : ∀ x, (sh.choose x).1.nextRef = sh.nextRef := by
    intro x
    obtain ⟨existing, pool, -, -, heq, -⟩ | ⟨ref, pool, sessions, -, heq, -⟩ |
      ⟨ref, -, heq, -⟩ | ⟨-, -, heq, -⟩ := choose_cases sh x
    all_goals rw [heq]
  cases h with
  | enter x _ _ => exact .inl ⟨hchoose x, fun _ heq => by cases heq⟩
  | register x =>
      refine .inr ⟨x, rfl, rfl, ?_⟩
      simp only [sessions_register, Function.update_self]
      exact ⟨rfl, rfl⟩
  | adopt x ref => exact .inl ⟨(frame_adopt sh x ref).nextRef, fun _ heq => by cases heq⟩
  | setPendingWill ref token _ => exact .inl ⟨(frame_cancel sh _).nextRef, fun _ heq => by cases heq⟩
  | deliver publish sender sub _ hdeliver =>
      exact .inl ⟨(frame_deliver hdeliver).1.nextRef, fun _ heq => by cases heq⟩
  | _ => exact .inl ⟨rfl, fun _ heq => by cases heq⟩

end

end Shared

/-! ## The machine -/

/-- What the CONNECTs have asked for. -/
structure Deals where
  /-- The exchange of a connection. -/
  exchange : TaskId → Option Exchange
  /-- The CONNACK that the connection has sent. -/
  ack : TaskId → Option ConnAck
  /-- The keep alive that was asked for when the session was made. -/
  asked : Ref → Nat
  /-- An expiry has been granted to the session. -/
  expires : Ref → Bool

namespace Deals

def start : Deals where
  exchange := fun _ => none
  ack := fun _ => none
  asked := fun _ => 0
  expires := fun _ => false

def record (d : Deals) (sh : Shared) (t : TaskId) : Action → Deals
  | .negotiate connect =>
    { d with
      exchange := Function.update d.exchange t
        (some { connect, configured := sh.pool.sessionExpiry }) }
  | .enroll a none =>
    { d with
      asked := Function.update d.asked sh.nextRef a.connect.keepAlive.toNat
      expires := Function.update d.expires sh.nextRef false }
  | .grantExpiry ref (some _) => { d with expires := Function.update d.expires ref true }
  | .write (.connAck ack) => { d with ack := Function.update d.ack t (some ack) }
  | _ => d

end Deals

structure Negotiated where
  state : State
  deals : Deals

namespace Negotiated

def start (config : Config) : Negotiated := { state := .start config, deals := .start }

def record (r : Negotiated) : Label → Deals
  | .act t _ =>
    match (r.state.tasks t).todo with
    | a :: _ => r.deals.record r.state.shared t a
    | [] => r.deals
  | _ => r.deals

def step (r : Negotiated) (l : Label) : Option Negotiated :=
  (r.state.step l).map fun state => { state, deals := r.record l }

/-- What the action is to come to under the exchange of its connection: the CONNACK gives the
client a value between the bounds, the timer is that value by the factor, and the expiry of the
session is what the exchange grants. -/
def Kept (r : Negotiated) (s' : State) (t : TaskId) (x : Exchange) : Action → Prop
  | .write (.connAck ack) =>
    ack.reason = .success →
      r.state.shared.config.defaultKeepAlive ≤
          (ack.serverKeepAlive.getD x.connect.keepAlive).toNat ∧
        (ack.serverKeepAlive.getD x.connect.keepAlive).toNat ≤ r.state.shared.config.maxKeepAlive
  | .openSession _ => ∃ ack, r.deals.ack t = some ack ∧
    (s'.tasks t).keepAlive = (ack.serverKeepAlive.getD x.connect.keepAlive).toNat * 3 / 2
  | .grantExpiry ref _ => (s'.shared.sessions ref).sessionExpiry = x.grant
  | _ => True

/-- The steps of `handle_connect` on which the client relies. -/
def Granting : Action → Prop
  | .write (.connAck ack) => ack.reason = .success
  | .openSession _ | .grantExpiry .. => True
  | _ => False

/-- The step keeps to what the exchange comes to. -/
def Honours (r : Negotiated) (l : Label) : Prop :=
  ∀ s' t c a rest, r.state.step l = some s' → l = .act t c → (r.state.tasks t).todo = a :: rest →
    Granting a → ∃ x, r.deals.exchange t = some x ∧ r.Kept s' t x a

/-- The CONNECT asks for what the session has already: a keep alive that comes to that of the
CONNECT it was made for, and an expiry if it has one. -/
def Suits (r : Negotiated) (x : Exchange) : Action → Prop
  | .write (.connAck _) => 0 < r.state.shared.config.maxKeepAlive ∨ x.keepAlive = 0
  | .openSession ref =>
    r.state.shared.config.clamp (r.deals.asked ref) = r.state.shared.config.clamp x.keepAlive ∧
      (0 < r.state.shared.config.maxKeepAlive ∨ x.keepAlive = 0)
  | .grantExpiry ref _ =>
    match x.requested with
    | some requested => x.configured < 2 ^ 32 ∨ requested ≤ x.configured % 2 ^ 32
    | none => r.deals.expires ref = false
  | _ => True

def Consistent (r : Negotiated) (l : Label) : Prop :=
  ∀ t c a rest x, l = .act t c → (r.state.tasks t).todo = a :: rest → Granting a →
    r.deals.exchange t = some x → r.Suits x a

/-! ## How far an exchange is -/

/-- The actions outside of the exchange. -/
def Outside : Action → Prop
  | .write (.connAck ack) => ack.reason ≠ .success
  | .openSession _ | .grantExpiry .. => False
  | a => a.connecting = false

/-- What a connection has left to do, with its exchange and the CONNACK it has sent. -/
inductive Stage (config : Config) (exchange : Option Exchange) (ack : Option ConnAck) :
    List Action → Prop
  | negotiate (connect : Connect) : Stage config exchange ack [.negotiate connect]
  | enter (x : Exchange) (a : Admission) (hx : exchange = some x) (ha : config.Settles x a) :
      Stage config exchange ack [.enterPool a]
  | hold (x : Exchange) (a : Admission) (target : Option Ref) (y : Action) (hx : exchange = some x)
      (ha : config.Settles x a) (hy : y.holds = some (a, target)) : Stage config exchange ack [y]
  | grant (x : Exchange) (ref : Ref) (sent : ConnAck) (hx : exchange = some x)
      (hsent : config.Tells x sent) :
      Stage config exchange ack
        [.grantExpiry ref x.granted, .write (.connAck sent), .openSession ref]
  | greet (x : Exchange) (ref : Ref) (sent : ConnAck) (hx : exchange = some x)
      (hsent : config.Tells x sent) :
      Stage config exchange ack [.write (.connAck sent), .openSession ref]
  | opening (x : Exchange) (ref : Ref) (sent : ConnAck) (hx : exchange = some x)
      (hsent : config.Tells x sent) (hack : ack = some sent) :
      Stage config exchange ack [.openSession ref]
  | outside (todo : List Action) (htodo : ∀ y ∈ todo, Outside y) : Stage config exchange ack todo

section

variable {sh sh' : Shared} {t : TaskId} {c : Choice} {a : Action} {next : Next}
  {rest : List Action} {task : Task} {d : Deals}

theorem outside_redelivery {ref : Ref} {order : List (UInt16 × Publish)} {y : Action}
    (hy : y ∈ Shared.redelivery ref order) : Outside y := by
  obtain ⟨⟨packetId, publish⟩, -, hy⟩ := List.mem_flatMap.mp hy
  simp only [List.mem_cons, List.not_mem_nil, or_false] at hy
  obtain rfl | rfl := hy
  · rfl
  · rfl

/-- An action outside of the exchange leads to none in it. -/
theorem outside_of_performed (h : Shared.Performed sh t c a sh' next)
    (ha : Outside a ∨ ∃ ref, a = .openSession ref) : ∀ y ∈ next.more, Outside y := by
  have hone : ∀ {x : Action}, Outside x → ∀ y ∈ [x], Outside y := by
    intro x hx y hy
    rwa [List.mem_singleton.mp hy]
  have hnil : ∀ y ∈ ([] : List Action), Outside y := fun y hy => absurd hy List.not_mem_nil
  cases h with
  | negotiate | reject | enter | lockOld | oldClosed | oldSent | settle | register | adopt =>
      obtain hout | ⟨ref, hopen⟩ := ha
      · cases hout
      · cases hopen
  | openSession ref _ _ =>
      intro y hy
      obtain hy | hy := List.mem_append.mp hy
      · exact outside_redelivery hy
      · rw [List.mem_singleton.mp hy]
        rfl
  | publishWill => exact hone rfl
  | delayWill => exact hone rfl
  | subscribe => exact hone rfl
  | unsubscribe => exact hone rfl
  | route publish sender subscribers _ =>
      intro y hy
      simp only [Next.more, List.cons_append, List.mem_cons, List.mem_append, List.mem_map,
        List.not_mem_nil, or_false] at hy
      obtain rfl | ⟨sub, -, rfl⟩ | rfl := hy
      · rfl
      · rfl
      · rfl
  | _ => exact hnil

theorem outside_after (hmore : ∀ y ∈ next.more, Outside y) (hrest : ∀ y ∈ rest, Outside y) :
    ∀ y ∈ (task.after rest next).todo, Outside y := fun y hy =>
  (mem_todo_after hy).elim (hmore y) (hrest y)

/-- A task that acts goes on with its exchange. -/
theorem stage_of_performed (hbounds : sh.Bounds) (h : Shared.Performed sh t c a sh' next)
    (hstage : Stage sh.config (d.exchange t) (d.ack t) (a :: rest)) :
    Stage sh.config ((d.record sh t a).exchange t) ((d.record sh t a).ack t)
      (task.after rest next).todo := by
  cases hstage with
  | negotiate connect =>
      cases h
      exact .enter _ _ (Function.update_self ..) (settles_negotiate hbounds connect c.uuid)
  | enter x b hx ha =>
      cases h with
      | reject =>
          refine .outside _ fun y hy => ?_
          obtain rfl | rfl : y = .write (.connAck { b.ack with reason := .quotaExceeded }) ∨
              y = .shutdown := by simpa [Task.after] using hy
          · intro h
            cases h
          · rfl
      | enter =>
          obtain ⟨_, _, -, -, -, hholds⟩ | ⟨_, _, _, -, -, hholds⟩ | ⟨_, -, -, hholds⟩ |
            ⟨-, -, -, hholds⟩ := Shared.choose_cases sh b
          all_goals exact .hold x _ _ _ hx ha hholds
  | hold x b target _ hx ha hy =>
      cases h with
      | lockOld | oldClosed | oldSent | settle =>
          cases hy
          exact .hold x _ _ _ hx ha rfl
      | register =>
          cases hy
          have hgrant : Stage sh.config (d.exchange t) (d.ack t) [_, _, _] :=
            .grant x sh.nextRef b.ack hx ha.ack
          rw [← ha.sessionExpiry] at hgrant
          exact hgrant
      | adopt _ ref =>
          cases hy
          have hgrant : Stage sh.config (d.exchange t) (d.ack t) [_, _, _] :=
            .grant x ref (b.ack.setSessionPresent true) hx ha.ack
          rw [← ha.sessionExpiry] at hgrant
          exact hgrant
      | _ => cases hy
  | grant x ref sent hx hsent =>
      generalize x.granted = expiry at h
      cases h with
      | grantExpiry => exact .greet x ref sent hx hsent
      | keepExpiry => exact .greet x ref sent hx hsent
  | greet x ref sent hx hsent =>
      cases h with
      | write => exact .opening x ref sent hx hsent (Function.update_self ..)
      | writeFails => exact .outside _ fun y hy => absurd hy List.not_mem_nil
  | opening x ref sent hx hsent hack =>
      exact .outside _ (outside_after (outside_of_performed h (.inr ⟨ref, rfl⟩)) fun y hy =>
        absurd hy List.not_mem_nil)
  | outside _ htodo =>
      obtain ⟨ha, hrest⟩ := List.forall_mem_cons.mp htodo
      exact .outside _ (outside_after (outside_of_performed h (.inl ha)) hrest)

theorem outside_ending (sh : Shared) (ref : Ref) : ∀ y ∈ sh.ending ref, Outside y := by
  intro y hy
  obtain rfl | rfl : y = .takeWill ref ∨ y = .deactivate (sh.sessions ref).id := by
    simpa [Shared.ending] using hy
  · rfl
  · rfl

theorem outside_handleControl (sh : Shared) (client : Option Ref) (msg : SessionControl) :
    ∀ y ∈ sh.handleControl client msg, Outside y := by
  intro y hy
  cases msg with
  | deliver publish =>
      rw [List.mem_singleton.mp hy]
      rfl
  | disconnect reason =>
      cases client with
      | none =>
          obtain rfl | rfl : y = .shutdown ∨ y = .finish (.ok ()) := by
            simpa [Shared.handleControl] using hy
          · rfl
          · rfl
      | some ref =>
          obtain hy | hy := List.mem_append.mp hy
          · split at hy
            · exact absurd hy List.not_mem_nil
            · rw [List.mem_singleton.mp hy]
              rfl
          · rw [List.mem_singleton.mp hy]
            rfl

theorem outside_handlePacket {ref : Ref} {p : Packet} {todo : List Action}
    (h : sh.handlePacket ref p = some todo) : ∀ y ∈ todo, Outside y := by
  have hone : ∀ {x : Action}, Outside x → ∀ y ∈ [x], Outside y := by
    intro x hx y hy
    rwa [List.mem_singleton.mp hy]
  have htwo : ∀ {x x' : Action}, Outside x → Outside x' → ∀ y ∈ [x, x'], Outside y := by
    intro x x' hx hx'
    exact List.forall_mem_cons.mpr ⟨hx, hone hx'⟩
  cases p with
  | disconnect d =>
      simp only [Shared.handlePacket] at h
      split at h
      · cases h
        exact htwo rfl rfl
      · cases h
        exact outside_ending sh ref
  | publish p =>
      simp only [Shared.handlePacket, Shared.handlePublish] at h
      split at h
      · split at h
        · cases h
          exact htwo rfl rfl
        · cases h
          exact htwo rfl rfl
      · cases h
        exact hone rfl
      · cases h
  | pingRequest | subscribe | unsubscribe | pubAck =>
      cases h
      exact hone rfl
  | _ =>
      cases h
      exact fun y hy => absurd hy List.not_mem_nil

/-- A task that has an event begins an exchange, or stays outside of it. -/
theorem stage_of_arises {config : Config} {exchange : Option Exchange} {ack : Option ConnAck}
    {e : Event} {todo : List Action} (h : Shared.Arises sh task e todo) :
    Stage config exchange ack todo := by
  have hclient : ∀ result, ∀ y ∈ (task.clientSession.map sh.ending).getD [] ++
      [.finish result], Outside y := by
    intro result y hy
    obtain hy | hy := List.mem_append.mp hy
    · cases hclient : task.clientSession with
      | none =>
          rw [hclient] at hy
          exact absurd hy List.not_mem_nil
      | some ref =>
          rw [hclient] at hy
          exact outside_ending sh ref y hy
    · rw [List.mem_singleton.mp hy]
      rfl
  cases h with
  | control msg _ => exact .outside _ (outside_handleControl sh _ msg)
  | timeout ref _ => exact .outside _ (outside_ending sh ref)
  | idle _ => exact .outside _ (outside_handleControl sh none (.disconnect .success))
  | packet p ref _ _ _ htodo => exact .outside _ (outside_handlePacket htodo)
  | ignored => exact .outside _ fun y hy => absurd hy List.not_mem_nil
  | endOfStream => exact .outside _ (hclient _)
  | readError => exact .outside _ (hclient _)
  | preConnect p _ =>
      cases p with
      | connect connect =>
          rw [Shared.handlePreConnect]
          split
          · exact .negotiate connect
          · refine .outside _ fun y hy => ?_
            obtain rfl | rfl : y = .write (.connAck { ConnAck.default with reason := .serverBusy }) ∨
                y = .shutdown := by simpa using hy
            · intro h
              cases h
            · rfl
      | _ =>
          refine .outside _ fun y hy => ?_
          rw [List.mem_singleton.mp hy]
          rfl

end

/-! ## The invariant -/

/-- A session goes by the CONNECT that it was made for and by the expiries it was granted. -/
structure Agrees (sh : Shared) (d : Deals) (ref : Ref) : Prop where
  keepAlive : (sh.sessions ref).keepAlive = sh.config.clamp (d.asked ref) * 3 / 2
  expires : d.expires ref = (sh.sessions ref).sessionExpiry.isSome

structure Inv (r : Negotiated) : Prop where
  broker : Broker.Inv r.state
  bounds : r.state.shared.Bounds
  agrees : ∀ ref < r.state.shared.nextRef, Agrees r.state.shared r.deals ref
  stage : ∀ t, Stage r.state.shared.config (r.deals.exchange t) (r.deals.ack t) (r.state.tasks t).todo

theorem inv_start {config : Config} (hsane : config.Sane) : (Negotiated.start config).Inv :=
  ⟨Broker.inv_start config, ⟨hsane, rfl, rfl⟩, fun _ href => absurd href (Nat.not_lt_zero _),
    fun _ => .outside _ fun _ hy => absurd hy List.not_mem_nil⟩

section

variable {sh sh' : Shared} {t t' : TaskId} {c : Choice} {a : Action} {next : Next}
  {rest : List Action} {d : Deals} {ref : Ref}

/-- The actions that make a session or grant it an expiry are the ones that are recorded of it. -/
theorem record_asked (hne : (∀ x, a ≠ .enroll x none) ∨ ref ≠ sh.nextRef) :
    (d.record sh t a).asked ref = d.asked ref := by
  cases a with
  | enroll x target =>
      cases target with
      | some _ => rfl
      | none =>
          obtain hne | hne := hne
          · exact absurd rfl (hne x)
          · exact Function.update_of_ne hne ..
  | grantExpiry _ expiry => cases expiry <;> rfl
  | write packet => cases packet <;> rfl
  | _ => rfl

theorem record_expires (hne : (∀ x, a ≠ .enroll x none) ∨ ref ≠ sh.nextRef)
    (hgrant : ∀ e, a ≠ .grantExpiry ref (some e)) :
    (d.record sh t a).expires ref = d.expires ref := by
  cases a with
  | enroll x target =>
      cases target with
      | some _ => rfl
      | none =>
          obtain hne | hne := hne
          · exact absurd rfl (hne x)
          · exact Function.update_of_ne hne ..
  | grantExpiry ref' expiry =>
      cases expiry with
      | none => rfl
      | some expiry =>
          refine Function.update_of_ne (fun heq => ?_) ..
          exact hgrant expiry (by rw [heq])
  | write packet => cases packet <;> rfl
  | _ => rfl

theorem record_of_ne (d : Deals) (sh : Shared) (a : Action) (hne : t' ≠ t) :
    (d.record sh t a).exchange t' = d.exchange t' ∧ (d.record sh t a).ack t' = d.ack t' := by
  cases a with
  | negotiate connect => exact ⟨Function.update_of_ne hne .., rfl⟩
  | enroll x target => cases target <;> exact ⟨rfl, rfl⟩
  | grantExpiry _ expiry => cases expiry <;> exact ⟨rfl, rfl⟩
  | write packet =>
      cases packet with
      | connAck ack => exact ⟨rfl, Function.update_of_ne hne ..⟩
      | _ => exact ⟨rfl, rfl⟩
  | _ => exact ⟨rfl, rfl⟩

theorem Agrees.of_sameTerms (h : Agrees sh d ref) (hconfig : sh'.config = sh.config)
    (hterms : (sh.sessions ref).SameTerms (sh'.sessions ref)) {d' : Deals}
    (hasked : d'.asked ref = d.asked ref) (hexpires : d'.expires ref = d.expires ref) :
    Agrees sh' d' ref :=
  ⟨by rw [hterms.keepAlive, h.keepAlive, hconfig, hasked],
    by rw [hexpires, h.expires, hterms.sessionExpiry]⟩

/-- One action. -/
theorem agrees_of_performed (h : Shared.Performed sh t c a sh' next)
    (hconfig : sh'.config = sh.config)
    (hstage : Stage sh.config (d.exchange t) (d.ack t) (a :: rest))
    (hagrees : ∀ ref < sh.nextRef, Agrees sh d ref) :
    ∀ ref < sh'.nextRef, Agrees sh' (d.record sh t a) ref := by
  intro ref href
  obtain ⟨hnext, hne⟩ | ⟨x, rfl, hnext, hkeepAlive, hexpiry⟩ := Shared.nextRef_of_performed h
  · rw [hnext] at href
    have hold := hagrees ref href
    by_cases hgrant : ∃ e, a = .grantExpiry ref (some e)
    · obtain ⟨e, rfl⟩ := hgrant
      cases h
      refine ⟨?_, ?_⟩
      · simp only [Shared.setSession, Function.update_self]
        exact hold.keepAlive
      · simp only [Shared.setSession, Function.update_self]
        exact Function.update_self ..
    · have hgrant' : ∀ e, a ≠ .grantExpiry ref (some e) := fun e heq => hgrant ⟨e, heq⟩
      exact hold.of_sameTerms hconfig (Shared.sameTerms_of_performed h href hgrant')
        (record_asked (.inl hne)) (record_expires (.inl hne) hgrant')
  · by_cases heq : ref = sh.nextRef
    · subst heq
      refine ⟨?_, ?_⟩
      · cases hstage with
        | hold y b target _ hy hb hholds =>
            cases hholds
            have hasked : (d.record sh t (.enroll x none)).asked sh.nextRef =
                x.connect.keepAlive.toNat := Function.update_self ..
            rw [hkeepAlive, hb.keepAlive, hconfig, hasked, hb.connect]
            rfl
        | outside _ htodo => cases htodo _ List.mem_cons_self
      · rw [hexpiry]
        exact Function.update_self ..
    · rw [hnext] at href
      have hlt : ref < sh.nextRef := Nat.lt_of_le_of_ne (Nat.lt_succ_iff.mp href) heq
      have hgrant : ∀ e, Action.enroll x none ≠ .grantExpiry ref (some e) := by
        intro e h
        cases h
      exact (hagrees ref hlt).of_sameTerms hconfig
        (Shared.sameTerms_of_performed h hlt hgrant) (record_asked (.inr heq))
        (record_expires (.inr heq) hgrant)

end

section

variable {r r' : Negotiated} {l : Label}

theorem step_eq_some : r.step l = some r' ↔
    ∃ state, r.state.step l = some state ∧ r' = { state, deals := r.record l } := by
  rw [step, Option.map_eq_some_iff]
  exact exists_congr fun state => and_congr_right fun _ => eq_comm

/-- A step that no exchange has a part in. -/
theorem Inv.frame (inv : r.Inv) {state : State} (hbroker : Broker.Inv state)
    (hsame : r.state.shared.SameBounds state.shared)
    (hnext : state.shared.nextRef = r.state.shared.nextRef)
    (hsessions : state.shared.sessions = r.state.shared.sessions)
    (hstage : ∀ t, (state.tasks t).todo = (r.state.tasks t).todo ∨
      ∀ exchange ack, Stage r.state.shared.config exchange ack (state.tasks t).todo) :
    Inv { state, deals := r.deals } := by
  refine ⟨hbroker, hsame.bounds inv.bounds, fun ref href => ?_, fun t => ?_⟩
  · exact (inv.agrees ref (hnext ▸ href)).of_sameTerms hsame.config
      (by rw [hsessions]; exact ⟨rfl, rfl⟩) rfl rfl
  · show Stage state.shared.config _ _ _
    rw [hsame.config]
    obtain htodo | hnew := hstage t
    · rw [htodo]
      exact inv.stage t
    · exact hnew _ _

theorem Inv.step (inv : r.Inv) (hstep : r.step l = some r') : r'.Inv := by
  obtain ⟨state, hstate, rfl⟩ := step_eq_some.mp hstep
  have hbroker := inv.broker.step hstate
  obtain ⟨n, e, todo, rfl, h⟩ | ⟨t, c, a, rest, sh, next, rfl, h⟩ | ⟨token, rfl, h⟩ |
    ⟨accept, rfl, rfl⟩ | ⟨secs, rfl, -, rfl⟩ := step_cases hstate
  · obtain ⟨hframe, hsessions⟩ := Shared.frame_of_handle h.handle
    refine inv.frame hbroker hframe.sameBounds hframe.nextRef hsessions fun t => ?_
    by_cases heq : t = .connection n
    · subst heq
      rw [h.self]
      exact .inr fun _ _ => stage_of_arises (Shared.arises_of_handle h.handle)
    · exact .inl (by rw [h.others t heq])
  · have hsame := Shared.sameBounds_of_perform h.perform
    have hframe := Shared.frame_afterNext sh (r.state.tasks t) next
    have hrecord : r.record (.act t c) = r.deals.record r.state.shared t a := by
      rw [record, h.todo]
    have hstage := inv.stage t
    rw [h.todo] at hstage
    rw [hrecord]
    refine ⟨hbroker, ?_, ?_, fun t' => ?_⟩
    · show state.shared.Bounds
      rw [h.shared]
      exact hframe.sameBounds.bounds (hsame.bounds inv.bounds)
    · intro ref href
      have hagrees := agrees_of_performed h.performed hsame.config hstage inv.agrees ref
      simp only [h.shared, hframe.nextRef] at href ⊢
      exact (hagrees href).of_sameTerms hframe.config
        (by rw [Shared.sessions_afterNext]; exact ⟨rfl, rfl⟩) rfl rfl
    · show Stage state.shared.config _ _ _
      rw [h.shared, hframe.config, hsame.config]
      by_cases heq : t' = t
      · subst heq
        rw [h.self]
        exact stage_of_performed inv.bounds h.performed hstage
      · obtain ⟨hexchange, hack⟩ := record_of_ne r.deals r.state.shared a heq
        rw [hexchange, hack, h.others t' heq]
        exact inv.stage t'
  · refine inv.frame hbroker ?_ (by rw [h.shared]) (by rw [h.shared]) fun t => ?_
    · rw [h.shared]
      exact ⟨rfl, rfl, rfl⟩
    · by_cases heq : t = .delay token
      · subst heq
        rw [h.self]
        exact .inr fun _ _ => .outside _ fun y hy => by rw [List.mem_singleton.mp hy]; rfl
      · exact .inl (by rw [h.others t heq])
  · exact inv.frame hbroker ⟨rfl, rfl, rfl⟩ rfl rfl fun _ => .inl rfl
  · exact inv.frame hbroker ⟨rfl, rfl, rfl⟩ rfl rfl fun _ => .inl rfl

/-! ## Keeping to the exchange -/

theorem clamp_bounds {config : Config} (h : config.Sane) (requested : Nat) :
    config.defaultKeepAlive ≤ config.clamp requested ∧
      config.clamp requested ≤ config.maxKeepAlive := by
  have hle := h.le
  unfold Config.clamp
  omega

/-- A part of the exchange is in the stage that it belongs to. -/
theorem Inv.exchange (inv : r.Inv) {t : TaskId} {a : Action} {rest : List Action}
    (htodo : (r.state.tasks t).todo = a :: rest) (ha : Granting a) :
    ∃ x, r.deals.exchange t = some x := by
  have hstage := inv.stage t
  rw [htodo] at hstage
  cases hstage with
  | negotiate | enter => cases ha
  | hold x b target _ hx _ hholds => exact ⟨x, hx⟩
  | grant x _ _ hx _ => exact ⟨x, hx⟩
  | greet x _ _ hx _ => exact ⟨x, hx⟩
  | opening x _ _ hx _ _ => exact ⟨x, hx⟩
  | outside _ hout =>
      have hfirst := hout _ List.mem_cons_self
      cases a with
      | write packet =>
          cases packet with
          | connAck ack => exact absurd ha hfirst
          | _ => cases ha
      | openSession | grantExpiry => cases hfirst
      | _ => cases ha

theorem Inv.lt_nextRef (inv : r.Inv) {t : TaskId} {a : Action} {rest : List Action} {ref : Ref}
    (htodo : (r.state.tasks t).todo = a :: rest) (ha : a.session = some ref) :
    ref < r.state.shared.nextRef := by
  obtain ⟨A, hA, rfl⟩ := (inv.broker.task t).session a (htodo ▸ List.mem_cons_self) ref ha
  exact ((inv.broker.task t).accepted A hA).1

/-- The CONNACK tells the client a value between the bounds, unless both are zero. -/
theorem told_iff {config : Config} (h : config.Sane) {x : Exchange} {ack : ConnAck}
    (hack : config.Tells x ack) :
    (config.defaultKeepAlive ≤ (ack.serverKeepAlive.getD x.connect.keepAlive).toNat ∧
      (ack.serverKeepAlive.getD x.connect.keepAlive).toNat ≤ config.maxKeepAlive) ↔
        0 < config.maxKeepAlive ∨ x.keepAlive = 0 := by
  have hle := h.le
  obtain ⟨hlow, hhigh⟩ := clamp_bounds h x.keepAlive
  rw [hack]
  split <;> omega

/-- The factor keeps different values apart. -/
theorem timer_iff {config : Config} (h : config.Sane) {x : Exchange} {ack : ConnAck}
    (hack : config.Tells x ack) (asked : Nat) :
    config.clamp asked * 3 / 2 = (ack.serverKeepAlive.getD x.connect.keepAlive).toNat * 3 / 2 ↔
      config.clamp asked = config.clamp x.keepAlive ∧
        (0 < config.maxKeepAlive ∨ x.keepAlive = 0) := by
  have hle := h.le
  obtain ⟨hlow, hhigh⟩ := clamp_bounds h x.keepAlive
  obtain ⟨hlow', hhigh'⟩ := clamp_bounds h asked
  rw [hack]
  split <;> omega

/-- The exchange grants what its terms say if the configured expiry has 32 bits or is not
needed. -/
theorem granted_iff {x : Exchange} {requested : Nat} (h : x.requested = some requested) :
    x.granted = x.grant ↔ x.configured < 2 ^ 32 ∨ requested ≤ x.configured % 2 ^ 32 := by
  rw [Exchange.granted, Exchange.grant, h, Option.map_some, Option.map_some, Option.some.injEq]
  omega

theorem Inv.kept_iff (inv : r.Inv) {s' : State} {t : TaskId} {c : Choice} {a : Action}
    {rest : List Action} {sh : Shared} {next : Next} (h : Acted r.state t c s' a rest sh next)
    (ha : Granting a) {x : Exchange} (hx : r.deals.exchange t = some x) :
    r.Kept s' t x a ↔ r.Suits x a := by
  have hstage := inv.stage t
  rw [h.todo] at hstage
  cases hstage with
  | negotiate | enter => cases ha
  | hold _ b target _ _ _ hholds =>
      cases a with
      | openSession | grantExpiry => cases hholds
      | _ => first | cases ha | cases hholds
  | grant x' ref sent hx' hsent =>
      cases hx.symm.trans hx'
      have hlt := inv.lt_nextRef h.todo rfl
      have hperformed := h.performed
      have hsessions : s'.shared.sessions = sh.sessions := by
        rw [h.shared, Shared.sessions_afterNext]
      simp only [Kept, Suits, hsessions]
      cases hrequested : x.requested with
      | none =>
          have hnone : x.granted = none := by rw [Exchange.granted, hrequested, Option.map_none]
          have hgrant : x.grant = none := by rw [Exchange.grant, hrequested, Option.map_none]
          rw [hnone] at hperformed
          cases hperformed
          rw [hgrant, (inv.agrees ref hlt).expires, Option.isSome_eq_false_iff,
            Option.isNone_iff_eq_none]
      | some requested =>
          have hsome : x.granted = some (min (x.configured % 2 ^ 32) requested) := by
            rw [Exchange.granted, hrequested, Option.map_some]
          refine Iff.trans ?_ (granted_iff hrequested)
          have hexpiry : (sh.sessions ref).sessionExpiry = x.granted := by
            rw [hsome] at hperformed ⊢
            cases hperformed
            simp only [Shared.setSession, Function.update_self, Session.setSessionExpiry]
          rw [hexpiry]
  | greet x' ref sent hx' hsent =>
      cases hx.symm.trans hx'
      exact (forall_prop_of_true ha).trans (told_iff inv.bounds.sane hsent)
  | opening x' ref sent hx' hsent hack =>
      cases hx.symm.trans hx'
      have hlt := inv.lt_nextRef h.todo rfl
      have hperformed := h.performed
      have hkeepAlive : (s'.tasks t).keepAlive = (r.state.shared.sessions ref).keepAlive := by
        rw [h.self]
        cases hperformed
        rfl
      simp only [Kept, Suits, hack, Option.some.injEq, exists_eq_left', hkeepAlive,
        (inv.agrees ref hlt).keepAlive]
      exact timer_iff inv.bounds.sane hsent _
  | outside _ hout =>
      have hfirst := hout _ List.mem_cons_self
      cases a with
      | write packet =>
          cases packet with
          | connAck ack => exact absurd ha hfirst
          | _ => cases ha
      | openSession | grantExpiry => cases hfirst
      | _ => cases ha

theorem Inv.honours_iff (inv : r.Inv) (hstep : r.step l = some r') :
    r.Honours l ↔ r.Consistent l := by
  obtain ⟨state, hstate, rfl⟩ := step_eq_some.mp hstep
  constructor
  · rintro hkept t c a rest x rfl htodo ha hx
    obtain ⟨a', rest', sh, next, h⟩ := acted_of_act hstate
    cases h.todo.symm.trans htodo
    obtain ⟨x', hx', hkept⟩ := hkept state t c a rest hstate rfl htodo ha
    cases hx.symm.trans hx'
    exact (inv.kept_iff h ha hx).mp hkept
  · rintro hsuits s' t c a rest hstate' rfl htodo ha
    cases hstate.symm.trans hstate'
    obtain ⟨a', rest', sh, next, h⟩ := acted_of_act hstate
    cases h.todo.symm.trans htodo
    obtain ⟨x, hx⟩ := inv.exchange htodo ha
    exact ⟨x, hx, (inv.kept_iff h ha hx).mpr (hsuits t c a rest x rfl htodo ha hx)⟩

/-- In a run every exchange is kept to exactly if each CONNECT asks for what the session that it
resumes or takes over has already. -/
theorem honours_along_iff {config : Config} (hle : config.defaultKeepAlive ≤ config.maxKeepAlive)
    (hlt : config.maxKeepAlive ≤ 65535) (ls : List Label) :
    Along Negotiated.step Honours (.start config) ls ↔
      Along Negotiated.step Consistent (.start config) ls := by
  have hsane : config.Sane := ⟨hle, Nat.lt_succ_of_le hlt⟩
  constructor
  · exact along_of_invariant (I := Negotiated.Inv)
      (fun _ _ _ inv h hstep => ⟨inv.step hstep, (inv.honours_iff hstep).mp h⟩) (inv_start hsane)
  · exact along_of_invariant (I := Negotiated.Inv)
      (fun _ _ _ inv h hstep => ⟨inv.step hstep, (inv.honours_iff hstep).mpr h⟩) (inv_start hsane)

end

/-! ## Runs -/

instance : DecidablePred Granting := fun a => by
  unfold Granting
  split <;> infer_instance

instance (r : Negotiated) (x : Exchange) (a : Action) : Decidable (r.Suits x a) := by
  unfold Suits
  split
  · infer_instance
  · infer_instance
  · split <;> infer_instance
  · infer_instance

/-- The action that the label takes, and the exchange of its connection. -/
def asks (r : Negotiated) : Label → Option (Action × Exchange)
  | .act t _ => (r.state.tasks t).todo.head?.bind fun a => (r.deals.exchange t).map (a, ·)
  | _ => none

theorem consistent_iff {r : Negotiated} {l : Label} :
    r.Consistent l ↔ ∀ y ∈ r.asks l, Granting y.1 → r.Suits y.2 y.1 := by
  constructor
  · rintro h ⟨a, x⟩ hy ha
    cases l with
    | act t c =>
        obtain ⟨b, hb, hx⟩ := Option.bind_eq_some_iff.mp hy
        obtain ⟨y, hy, heq⟩ := Option.map_eq_some_iff.mp hx
        cases heq
        obtain ⟨rest, htodo⟩ := List.head?_eq_some_iff.mp hb
        exact h t c a rest x rfl htodo ha hy
    | _ => cases hy
  · rintro h t c a rest x rfl htodo ha hx
    exact h (a, x) (by simp [asks, htodo, hx]) ha

instance (r : Negotiated) (l : Label) : Decidable (r.Consistent l) :=
  decidable_of_iff _ consistent_iff.symm

def asking (keepAlive : UInt16) (expiry : Option UInt32) : Connect :=
  { Connect.new "x" with keepAlive, sessionExpiryInterval := expiry }

/-- A client comes back with the terms it had. -/
def returningLabels : List Label :=
  connectLabels 0 (asking 60 (some 30)) 7 ++ connectLabels 1 (asking 60 (some 900)) 10

theorem honours_along_returning :
    (run Negotiated.step (.start defaultConfig) returningLabels).map (fun r =>
        ((r.state.tasks (.connection 1)).keepAlive, (r.state.shared.sessions 0).sessionExpiry)) =
      some (90, some 600) ∧
      Along Negotiated.step Honours (.start defaultConfig) returningLabels :=
  ⟨by decide +kernel, (honours_along_iff (by decide) (by decide) _).mpr (by decide +kernel)⟩

/-- The session that an action opens. -/
def opens : Action → Option Ref
  | .openSession ref => some ref
  | _ => none

theorem opens_eq_some {a : Action} {ref : Ref} : opens a = some ref ↔ a = .openSession ref := by
  cases a with
  | openSession r => simp [opens]
  | _ => simp [opens]

/-- The value that the client goes by after the CONNACK. -/
def told (r : Negotiated) (t : TaskId) : Option Nat :=
  (r.deals.ack t).bind fun ack =>
    (r.deals.exchange t).map fun x => (ack.serverKeepAlive.getD x.connect.keepAlive).toNat

/-- A client takes its session over with a longer keep alive. -/
def longerLabels : List Label :=
  connectLabels 0 (asking 60 none) 7 ++ connectLabels 1 (asking 120 none) 8

theorem not_honours_of_longer :
    ¬ ∀ (config : Config) (ls : List Label), config.defaultKeepAlive ≤ config.maxKeepAlive →
      config.maxKeepAlive ≤ 65535 → Along Negotiated.step Honours (.start config) ls := by
  let l : Label := .act (.connection 1) {}
  have hfacts : (run Negotiated.step (.start defaultConfig) longerLabels).map (fun r =>
      ((r.state.tasks (.connection 1)).todo.head?.bind opens, r.told (.connection 1),
        (r.state.step l).map fun s => (s.tasks (.connection 1)).keepAlive)) =
      some (some 0, some 120, some 90) := by decide +kernel
  intro h
  obtain ⟨r, hrun, hr⟩ := Option.map_eq_some_iff.mp hfacts
  obtain ⟨hopens, hr⟩ := Prod.mk.inj hr
  obtain ⟨htold, hstep⟩ := Prod.mk.inj hr
  obtain ⟨a, ha, hopen⟩ := Option.bind_eq_some_iff.mp hopens
  obtain ⟨rest, htodo⟩ := List.head?_eq_some_iff.mp ha
  obtain ⟨s', hs', hkeepAlive⟩ := Option.map_eq_some_iff.mp hstep
  cases opens_eq_some.mp hopen
  have halong := ((along_append hrun).mp
    (h defaultConfig (longerLabels ++ [l]) (by decide) (by decide))).2
  have hhonours := (halong { state := s', deals := r.record l } (by rw [step, hs', Option.map_some])).1
  obtain ⟨x, hx, ack, hack, htimer⟩ := hhonours s' _ _ _ rest hs' rfl htodo trivial
  rw [told, hack, hx] at htold
  have hclient : (ack.serverKeepAlive.getD x.connect.keepAlive).toNat = 120 := Option.some.inj htold
  rw [hkeepAlive, hclient] at htimer
  cases htimer

end Negotiated

end Broker
end Vaux
