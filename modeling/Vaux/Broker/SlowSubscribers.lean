import Vaux.Broker.System

/-!
# Slow subscribers

The loop of `route_publish` with each of its non-blocking sends as a step of its own, and
between them whatever the consumers of the channels and the other tasks do.  The pool is
read-locked meanwhile, so neither it nor the channel of a session changes.
-/

namespace Vaux
namespace Broker

open Wire Mqtt

/-- A subscriber with an active session, and whether its channel took the publish. -/
structure Served where
  sub : Subscriber
  session : Ref
  publish : Publish
  accepted : Bool

structure Routing where
  shared : Shared
  /-- The subscribers that are still to be served. -/
  subscribers : List Subscriber
  /-- The channel that has refused a publish and is to get the Disconnect. -/
  refused : Option ChannelId
  /-- What the consumers have received since the loop began. -/
  taken : ChannelId → List SessionControl
  served : List Served

inductive RoutingStep where
  /-- The next subscriber, up to the first `try_send_control`. -/
  | serve
  /-- The `try_send_control` of the Disconnect. -/
  | fallback
  | receive (ch : ChannelId)
  | close (ch : ChannelId)
  /-- Another task sends to a channel. -/
  | send (ch : ChannelId) (msg : SessionControl)
  /-- Another task changes a session, but not its channel. -/
  | change (ref : Ref) (session : Session)

namespace Routing

def start (shared : Shared) (subscribers : List Subscriber) : Routing where
  shared := shared
  subscribers := subscribers
  refused := none
  taken := fun _ => []
  served := []

/-- What has been put into a channel, from what was in it when the loop began. -/
def passed (r : Routing) (ch : ChannelId) : List SessionControl :=
  r.taken ch ++ (r.shared.channels ch).queue

def serve (publish : Publish) (sender : String) (r : Routing) : Option Routing :=
  match r.refused, r.subscribers with
  | none, sub :: subscribers =>
    if sub.noLocal ∧ sub.sessionId = sender then some { r with subscribers }
    else
      match r.shared.pool.getActive sub.sessionId with
      | none => some { r with subscribers }
      | some ref =>
        match handOver publish sub.qos (r.shared.sessions ref) with
        | .ok (out, target) =>
          let sh := r.shared.setSession ref target
          match sh.trySend target.control (.deliver out) with
          | some sh =>
            some { r with
              shared := sh
              subscribers
              served := r.served ++ [⟨sub, ref, out, true⟩] }
          | none =>
            some { r with
              shared := sh
              subscribers
              refused := some target.control
              served := r.served ++ [⟨sub, ref, out, false⟩] }
        | _ => none
  | _, _ => none

def step (publish : Publish) (sender : String) (r : Routing) : RoutingStep → Option Routing
  | .serve => r.serve publish sender
  | .fallback =>
    r.refused.map fun ch =>
      { r with
        shared := (r.shared.trySend ch (.disconnect .quotaExceeded)).getD r.shared
        refused := none }
  | .receive ch =>
    match (r.shared.channels ch).queue with
    | [] => none
    | msg :: queue =>
      some { r with
        shared := r.shared.setChannel ch { r.shared.channels ch with queue }
        taken := Function.update r.taken ch (r.taken ch ++ [msg]) }
  | .close ch => some { r with shared := r.shared.close (some ch) }
  | .send ch msg => (r.shared.trySend ch msg).map fun sh => { r with shared := sh }
  | .change ref session =>
    if session.control = (r.shared.sessions ref).control then
      some { r with shared := r.shared.setSession ref session }
    else none

/-- The body of the loop is its two sends with nothing between them. -/
theorem deliver_eq (sh : Shared) (publish : Publish) (sender : String) (sub : Subscriber) :
    sh.deliver publish sender sub =
      ((start sh [sub]).serve publish sender).bind fun r =>
        if r.refused.isSome then (r.step publish sender .fallback).map (·.shared)
        else some r.shared := by
  simp only [Shared.deliver, serve, start]
  by_cases hskip : sub.noLocal = true ∧ sub.sessionId = sender
  · simp [hskip]
  · simp only [hskip, if_false]
    cases sh.pool.getActive sub.sessionId with
    | none => rfl
    | some ref =>
        simp only
        cases handOver publish sub.qos (sh.sessions ref) with
        | ok handed =>
            obtain ⟨out, target⟩ := handed
            simp only
            cases (sh.setSession ref target).trySend target.control (.deliver out) <;> rfl
        | err e => rfl
        | panic => rfl

/-! ## What a step does to the channels -/

section

variable {publish : Publish} {sender : String} {r r' : Routing} {l : RoutingStep} {sh sh' : Shared}
  {ch : ChannelId} {msg : SessionControl}

theorem trySend_eq_some (h : sh.trySend ch msg = some sh') :
    sh' = sh.push ch msg ∧ (sh.channels ch).closed = false ∧
      (sh.channels ch).queue.length < (sh.channels ch).capacity := by
  unfold Shared.trySend at h
  split at h
  · cases h
  · rename_i hopen
    split at h
    · rename_i hroom
      cases h
      exact ⟨rfl, Bool.eq_false_iff.mpr hopen, hroom⟩
    · cases h

theorem trySend_of_room (hopen : (sh.channels ch).closed = false)
    (hroom : (sh.channels ch).queue.length < (sh.channels ch).capacity) :
    sh.trySend ch msg = some (sh.push ch msg) := by
  rw [Shared.trySend, hopen, if_neg (by simp), if_pos hroom]

theorem queue_push (c : ChannelId) :
    ((sh.push ch msg).channels c).queue =
      if c = ch then (sh.channels c).queue ++ [msg] else (sh.channels c).queue := by
  by_cases h : c = ch
  · subst h
    simp [Shared.push, Shared.setChannel]
  · simp [Shared.push, Shared.setChannel, h]

/-- The session is handed over on the channel it has. -/
theorem control_handOver {subQos : QoSLevel} {target target' : Session} {out : Publish}
    (h : handOver publish subQos target = .ok (out, target')) : target'.control = target.control := by
  unfold handOver at h
  obtain ⟨qos, -, h⟩ := Outcome.bind_eq_ok.mp h
  simp only at h
  split at h <;> (cases h; rfl)

/-- The subscriber is not to have the publish, or has no active session. -/
def Skips (sh : Shared) (sender : String) (sub : Subscriber) : Prop :=
  (sub.noLocal = true ∧ sub.sessionId = sender) ∨ sh.pool.getActive sub.sessionId = none

/-- The next subscriber is passed over, or its channel takes the publish, or refuses it. -/
theorem serve_cases (h : r.serve publish sender = some r') :
    ∃ sub subscribers, r.refused = none ∧ r.subscribers = sub :: subscribers ∧
      (Skips r.shared sender sub ∧ r' = { r with subscribers } ∨
      ∃ ref out target, ¬ Skips r.shared sender sub ∧
        r.shared.pool.getActive sub.sessionId = some ref ∧
        handOver publish sub.qos (r.shared.sessions ref) = .ok (out, target) ∧
        ((∃ sh, (r.shared.setSession ref target).trySend target.control (.deliver out) = some sh ∧
          r' = { r with
            shared := sh
            subscribers
            served := r.served ++ [⟨sub, ref, out, true⟩] }) ∨
        r' = { r with
          shared := r.shared.setSession ref target
          subscribers
          refused := some target.control
          served := r.served ++ [⟨sub, ref, out, false⟩] })) := by
  unfold serve at h
  split at h
  · rename_i sub subscribers hrefused hsubs
    refine ⟨sub, subscribers, hrefused, hsubs, ?_⟩
    split at h
    · rename_i hskip
      cases h
      exact .inl ⟨.inl hskip, rfl⟩
    · rename_i hskip
      split at h
      · rename_i hactive
        cases h
        exact .inl ⟨.inr hactive, rfl⟩
      · rename_i ref hactive
        split at h
        · rename_i out target hhand
          have hnot : ¬ Skips r.shared sender sub := by
            rintro (h | h)
            · exact hskip h
            · cases hactive.symm.trans h
          refine .inr ⟨ref, out, target, hnot, hactive, hhand, ?_⟩
          simp only at h
          split at h
          · rename_i sh hsend
            cases h
            exact .inl ⟨sh, hsend, rfl⟩
          · cases h
            exact .inr rfl
        · cases h
  · cases h

/-- What a step leaves of the pool, the channels of the sessions and what was sent. -/
structure Grows (r r' : Routing) : Prop where
  pool : r'.shared.pool = r.shared.pool
  control : ∀ ref, (r'.shared.sessions ref).control = (r.shared.sessions ref).control
  passed : ∀ ch, r.passed ch <+: r'.passed ch

theorem control_setSession {ref : Ref} {session : Session}
    (h : session.control = (sh.sessions ref).control) (ref' : Ref) :
    ((sh.setSession ref session).sessions ref').control = (sh.sessions ref').control := by
  by_cases href : ref' = ref
  · subst href
    simp [Shared.setSession, h]
  · simp [Shared.setSession, href]

theorem prefix_push (c : ChannelId) (taken : List SessionControl) :
    taken ++ (sh.channels c).queue <+: taken ++ ((sh.push ch msg).channels c).queue := by
  rw [queue_push]
  split
  · rw [← List.append_assoc]
    exact List.prefix_append _ _
  · exact List.prefix_refl _

theorem step_grows (h : r.step publish sender l = some r') : Grows r r' := by
  cases l with
  | serve =>
      obtain ⟨sub, subscribers, -, -, ⟨-, rfl⟩ | ⟨ref, out, target, -, -, hhand, hsend⟩⟩ :=
        serve_cases h
      · exact ⟨rfl, fun _ => rfl, fun _ => List.prefix_refl _⟩
      · have hcontrol := control_handOver hhand
        rcases hsend with ⟨sh, hsend, rfl⟩ | rfl
        · obtain ⟨rfl, -, -⟩ := trySend_eq_some hsend
          exact ⟨rfl, control_setSession hcontrol,
            fun c => prefix_push c _⟩
        · exact ⟨rfl, control_setSession hcontrol, fun _ => List.prefix_refl _⟩
  | fallback =>
      obtain ⟨ch, -, rfl⟩ := Option.map_eq_some_iff.mp h
      cases hsend : r.shared.trySend ch (.disconnect .quotaExceeded) with
      | none => exact ⟨rfl, fun _ => rfl, fun _ => List.prefix_refl _⟩
      | some sh =>
          obtain ⟨rfl, -, -⟩ := trySend_eq_some hsend
          exact ⟨rfl, fun _ => rfl, fun c => prefix_push c _⟩
  | receive ch =>
      simp only [step] at h
      split at h
      · cases h
      · rename_i msg queue hqueue
        cases h
        refine ⟨rfl, fun _ => rfl, fun c => ?_⟩
        by_cases hc : c = ch
        · subst hc
          simp [passed, Shared.setChannel, hqueue]
        · simp [passed, Shared.setChannel, hc]
  | close ch =>
      cases h
      refine ⟨rfl, fun _ => rfl, fun c => ?_⟩
      by_cases hc : c = ch
      · subst hc
        simp [passed, Shared.close, Shared.setChannel]
      · simp [passed, Shared.close, Shared.setChannel, hc]
  | send ch msg =>
      obtain ⟨sh, hsend, rfl⟩ := Option.map_eq_some_iff.mp h
      obtain ⟨rfl, -, -⟩ := trySend_eq_some hsend
      exact ⟨rfl, fun _ => rfl, fun c => prefix_push c _⟩
  | change ref session =>
      simp only [step] at h
      split at h
      · rename_i hcontrol
        cases h
        exact ⟨rfl, control_setSession hcontrol, fun _ => List.prefix_refl _⟩
      · cases h

end

/-! ## Runs -/

/-- The subscribers the publish is for, with their active sessions. -/
def targets (pool : SessionPool) (sender : String) (subscribers : List Subscriber) :
    List (Subscriber × Ref) :=
  subscribers.filterMap fun sub =>
    if sub.noLocal ∧ sub.sessionId = sender then none
    else (pool.getActive sub.sessionId).map (Prod.mk sub)

/-- The publish has been put into the channel of the session, or a Disconnect has. -/
def Heard (r : Routing) (ch : ChannelId) (e : Served) : Prop :=
  (e.accepted = true ∧ .deliver e.publish ∈ r.passed ch) ∨
    .disconnect .quotaExceeded ∈ r.passed ch

/-- When the Disconnect is sent there is room for it, which the consumer has made since the
publish was refused, or there is one on its way already. -/
def Answered (r : Routing) : RoutingStep → Prop
  | .fallback => ∀ ch ∈ r.refused,
    ((r.shared.channels ch).closed = false ∧
      (r.shared.channels ch).queue.length < (r.shared.channels ch).capacity) ∨
    .disconnect .quotaExceeded ∈ r.passed ch
  | _ => True

instance (r : Routing) : ∀ l, Decidable (Answered r l)
  | .fallback => inferInstanceAs (Decidable (∀ ch ∈ r.refused, _))
  | .serve | .receive _ | .close _ | .send _ _ | .change _ _ => isTrue trivial

/-- What has become of the subscribers so far; `sh` is the state the loop began in. -/
structure Accounts (publish : Publish) (sender : String) (sh : Shared)
    (subscribers : List Subscriber) (r : Routing) : Prop where
  pool : r.shared.pool = sh.pool
  control : ∀ ref, (r.shared.sessions ref).control = (sh.sessions ref).control
  targets : r.served.map (fun e => (e.sub, e.session)) ++ targets sh.pool sender r.subscribers =
    targets sh.pool sender subscribers
  publishes : ∀ e ∈ r.served, ∃ target target',
    handOver publish e.sub.qos target = .ok (e.publish, target')
  heard : ∀ e ∈ r.served, r.Heard (sh.sessions e.session).control e ∨
    r.refused = some (sh.sessions e.session).control

section

variable {publish : Publish} {sender : String} {r r' : Routing} {l : RoutingStep} {sh : Shared}
  {subscribers : List Subscriber}

theorem Heard.mono {ch : ChannelId} {e : Served} (h : r.Heard ch e)
    (hpre : r.passed ch <+: r'.passed ch) : r'.Heard ch e :=
  h.imp (fun h => ⟨h.1, hpre.subset h.2⟩) fun h => hpre.subset h

theorem targets_cons (pool : SessionPool) (sub : Subscriber) :
    targets pool sender (sub :: subscribers) =
      (if sub.noLocal ∧ sub.sessionId = sender then none
        else (pool.getActive sub.sessionId).map (Prod.mk sub)).toList ++
      targets pool sender subscribers := by
  simp only [targets, List.filterMap_cons]
  split <;> rename_i h <;> simp [h]

theorem accounts_start : Accounts publish sender sh subscribers (start sh subscribers) where
  pool := rfl
  control _ := rfl
  targets := rfl
  publishes := by simp [start]
  heard := by simp [start]

/-- A step that serves no subscriber. -/
theorem Accounts.frame (h : Accounts publish sender sh subscribers r) (hgrows : Grows r r')
    (hserved : r'.served = r.served) (hsubs : r'.subscribers = r.subscribers)
    (hrefused : ∀ e ∈ r.served, r.refused = some (sh.sessions e.session).control →
      r'.Heard (sh.sessions e.session).control e ∨
        r'.refused = some (sh.sessions e.session).control) :
    Accounts publish sender sh subscribers r' where
  pool := hgrows.pool.trans h.pool
  control ref := (hgrows.control ref).trans (h.control ref)
  targets := by rw [hserved, hsubs, h.targets]
  publishes := by rw [hserved]; exact h.publishes
  heard := by
    intro e he
    rw [hserved] at he
    rcases h.heard e he with hheard | hr
    · exact .inl (hheard.mono (hgrows.passed _))
    · exact hrefused e he hr

theorem targets_skip {sub : Subscriber} (h : Skips sh sender sub) (rest : List Subscriber) :
    targets sh.pool sender (sub :: rest) = targets sh.pool sender rest := by
  rw [targets_cons]
  rcases h with h | h <;> simp [h]

theorem targets_active {sub : Subscriber} {ref : Ref} (h : ¬ Skips sh sender sub)
    (hactive : sh.pool.getActive sub.sessionId = some ref) (rest : List Subscriber) :
    targets sh.pool sender (sub :: rest) = (sub, ref) :: targets sh.pool sender rest := by
  have hnot : ¬ (sub.noLocal = true ∧ sub.sessionId = sender) := fun hskip => h (.inl hskip)
  simp [targets_cons, hnot, hactive]

/-- One more subscriber is served. -/
theorem Accounts.append (h : Accounts publish sender sh subscribers r) (hgrows : Grows r r')
    {sub : Subscriber} {rest : List Subscriber} {e : Served} (hrefused : r.refused = none)
    (hsubs : r.subscribers = sub :: rest) (hskip : ¬ Skips r.shared sender sub)
    (hactive : r.shared.pool.getActive sub.sessionId = some e.session) (hsub : e.sub = sub)
    (hpublish : ∃ target target', handOver publish e.sub.qos target = .ok (e.publish, target'))
    (hserved : r'.served = r.served ++ [e]) (hrest : r'.subscribers = rest)
    (hheard : r'.Heard (sh.sessions e.session).control e ∨
      r'.refused = some (sh.sessions e.session).control) :
    Accounts publish sender sh subscribers r' where
  pool := hgrows.pool.trans h.pool
  control ref := (hgrows.control ref).trans (h.control ref)
  targets := by
    rw [hserved, hrest, ← h.targets, hsubs, ← h.pool, targets_active hskip hactive, List.map_append,
      List.append_assoc, ← hsub]
    rfl
  publishes := by
    rw [hserved]
    exact List.forall_mem_append.mpr ⟨h.publishes, by simpa using hpublish⟩
  heard := by
    rw [hserved]
    refine List.forall_mem_append.mpr ⟨fun e' he' => ?_, by simpa using hheard⟩
    rcases h.heard e' he' with hold | hr
    · exact .inl (hold.mono (hgrows.passed _))
    · cases hrefused.symm.trans hr

theorem Accounts.serve (h : Accounts publish sender sh subscribers r)
    (hstep : r.serve publish sender = some r') : Accounts publish sender sh subscribers r' := by
  have hgrows : Grows r r' := step_grows (l := .serve) hstep
  obtain ⟨sub, rest, hrefused, hsubs, ⟨hskip, rfl⟩ |
    ⟨ref, out, target, hskip, hactive, hhand, hsend⟩⟩ := serve_cases hstep
  · refine ⟨h.pool, h.control, ?_, h.publishes, h.heard⟩
    rw [← h.targets, hsubs, ← h.pool, targets_skip hskip]
  · have hcontrol : target.control = (sh.sessions ref).control :=
      (control_handOver hhand).trans (h.control ref)
    rcases hsend with ⟨after, hsend, rfl⟩ | rfl
    · obtain ⟨rfl, -, -⟩ := trySend_eq_some hsend
      refine h.append (e := ⟨sub, ref, out, true⟩) hgrows hrefused hsubs hskip hactive rfl
        ⟨_, _, hhand⟩ rfl rfl (.inl (.inl ⟨rfl, ?_⟩))
      simp only [passed, queue_push, hcontrol]
      simp
    · exact h.append (e := ⟨sub, ref, out, false⟩) hgrows hrefused hsubs hskip hactive rfl
        ⟨_, _, hhand⟩ rfl rfl (.inr (congrArg some hcontrol))

theorem Accounts.step (h : Accounts publish sender sh subscribers r) (hl : r.Answered l)
    (hstep : r.step publish sender l = some r') : Accounts publish sender sh subscribers r' := by
  have hgrows := step_grows hstep
  cases l with
  | serve => exact h.serve hstep
  | fallback =>
      obtain ⟨ch, hch, hr'⟩ := Option.map_eq_some_iff.mp hstep
      have hpassed : .disconnect .quotaExceeded ∈ r'.passed ch := by
        rcases hl ch hch with ⟨hopen, hroom⟩ | hmem
        · rw [← hr', passed]
          simp [trySend_of_room hopen hroom, queue_push]
        · exact (hgrows.passed ch).subset hmem
      refine h.frame hgrows (by rw [← hr']) (by rw [← hr']) ?_
      intro e he hr
      cases hch.symm.trans hr
      exact .inl (.inr hpassed)
  | receive ch =>
      simp only [Routing.step] at hstep
      split at hstep
      · cases hstep
      · cases hstep
        exact h.frame hgrows rfl rfl fun _ _ hr => .inr hr
  | close ch =>
      cases hstep
      exact h.frame hgrows rfl rfl fun _ _ hr => .inr hr
  | send ch msg =>
      obtain ⟨sh', -, rfl⟩ := Option.map_eq_some_iff.mp hstep
      exact h.frame hgrows rfl rfl fun _ _ hr => .inr hr
  | change ref session =>
      simp only [Routing.step] at hstep
      split at hstep
      · cases hstep
        exact h.frame hgrows rfl rfl fun _ _ hr => .inr hr
      · cases hstep

/-- In every run of the loop whose Disconnects are answered, each subscriber with an active
session has been sent the publish or a Disconnect. -/
theorem heard_of_run {steps : List RoutingStep}
    (hrun : Machine.run (Routing.step publish sender) (start sh subscribers) steps = some r)
    (hsteps : Machine.Along (Routing.step publish sender) Answered (start sh subscribers) steps)
    (hdone : r.subscribers = [] ∧ r.refused = none) :
    r.served.map (fun e => (e.sub, e.session)) = targets sh.pool sender subscribers ∧
      ∀ e ∈ r.served,
        (∃ target target', handOver publish e.sub.qos target = .ok (e.publish, target')) ∧
          r.Heard (sh.sessions e.session).control e := by
  have haccounts : Accounts publish sender sh subscribers r :=
    Machine.invariant_of_step (fun r l r' h hl hstep => h.step hl hstep) accounts_start hsteps hrun
  refine ⟨?_, fun e he => ⟨haccounts.publishes e he, ?_⟩⟩
  · have htargets := haccounts.targets
    rwa [hdone.1, targets, List.filterMap_nil, List.append_nil] at htargets
  · refine (haccounts.heard e he).resolve_right ?_
    rw [hdone.2]
    exact fun hr => nomatch hr

end

/-- A broker with one active session, whose channel has room for one message and holds it. -/
def crowded : Shared :=
  let sh := (State.start
    { defaultKeepAlive := 45
      maxKeepAlive := 45
      sessionExpiry := 60
      sessionChannelSize := 1
      sessionChannelSize_pos := Nat.one_pos
      maxActiveSessions := none }).shared
  { sh with
    pool := { sh.pool with active := sh.pool.active.insert "s" 0, activeSessions := 1 }
    channels := fun _ => { queue := [.deliver .default], capacity := 1, closed := false } }

theorem crowded_control (ref : Ref) : (crowded.sessions ref).control = 0 := rfl

/-- The consumer takes a message between the two sends. -/
theorem heard_of_receive :
    ∃ r, Machine.run (step .default "") (start crowded [⟨"s", .atMostOnce, false⟩])
        [.serve, .receive 0, .fallback] = some r ∧
      ∀ e ∈ r.served, r.Heard (crowded.sessions e.session).control e := by
  have hend : (Machine.run (step .default "") (start crowded [⟨"s", .atMostOnce, false⟩])
      [.serve, .receive 0, .fallback]).map (fun r => (r.subscribers.isEmpty, r.refused)) =
        some (true, none) := by decide +kernel
  obtain ⟨r, hrun, hr⟩ := Option.map_eq_some_iff.mp hend
  rw [Prod.mk.injEq, List.isEmpty_iff] at hr
  have hsteps : Machine.Along (step .default "") Answered
      (start crowded [⟨"s", .atMostOnce, false⟩]) [.serve, .receive 0, .fallback] := by
    decide +kernel
  exact ⟨r, hrun, fun e he => ((heard_of_run hrun hsteps hr).2 e he).2⟩

/-- The consumer does nothing. -/
theorem lost_without_consumer :
    ¬ ∀ (publish : Publish) (sender : String) (sh : Shared) (subscribers : List Subscriber)
      (steps : List RoutingStep) (r : Routing),
      Machine.run (step publish sender) (start sh subscribers) steps = some r →
      r.subscribers = [] ∧ r.refused = none →
      ∀ e ∈ r.served, r.Heard (sh.sessions e.session).control e := by
  intro h
  have hend : (Machine.run (step .default "") (start crowded [⟨"s", .atMostOnce, false⟩])
      [.serve, .fallback]).map (fun r => (r.subscribers.isEmpty, r.refused,
        r.served.map (·.accepted), r.passed 0)) =
        some (true, none, [false], [.deliver .default]) := by decide +kernel
  obtain ⟨r, hrun, hr⟩ := Option.map_eq_some_iff.mp hend
  simp only [Prod.mk.injEq, List.isEmpty_iff] at hr
  obtain ⟨hsubs, hrefused, haccepted, hpassed⟩ := hr
  obtain ⟨e, hserved, hfalse⟩ : ∃ e, r.served = [e] ∧ e.accepted = false := by
    obtain ⟨e, rest, hserved, he, hrest⟩ := List.map_eq_cons_iff.mp haccepted
    rw [List.map_eq_nil_iff] at hrest
    exact ⟨e, by rw [hserved, hrest], he⟩
  have hheard := h .default "" crowded _ _ r hrun ⟨hsubs, hrefused⟩ e (by simp [hserved])
  rw [crowded_control] at hheard
  rcases hheard with ⟨htrue, -⟩ | hmem
  · rw [hfalse] at htrue
    cases htrue
  · rw [hpassed] at hmem
    simp at hmem

end Routing

end Broker
end Vaux
